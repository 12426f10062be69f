/-
Module: LoxLang.Proofs.Parser.Parsing
Purpose: What it means that a parser reads exactly the token lists a relation describes.  The
  relation ties a result to the tokens it was read from and to the kind of the token after them.
  A parser is sound for it if what it yields without reporting an error is so related, and
  complete if it yields every result that is.  Both are closed under the ways in which parsers
  are put together.
Main exports: Parsing, Parsing.Loop, Parser.Sound, Parser.Complete
-/
import LoxLang.Proofs.Parser.Stream

namespace LoxLang

open LoxLang.Stream (Passes)

/-! ### What a parser reads -/

/-- What a parser reads: its result, the tokens taken, and the kind of the token after them. -/
abbrev Parsing (α : Type) := α → List Token → Kind → Prop

/-- The kind of the first of some tokens, or else of the token after them. -/
def firstKind : List Token → Kind → Kind
  | [], next => next
  | token :: _, _ => token.kind

@[simp] theorem firstKind_nil (next : Kind) : firstKind [] next = next := rfl

@[simp] theorem firstKind_cons (token : Token) (rest : List Token) (next : Kind) :
    firstKind (token :: rest) next = token.kind := rfl

theorem firstKind_append (first second : List Token) (next : Kind) :
    firstKind (first ++ second) next = firstKind first (firstKind second next) := by
  cases first <;> rfl

theorem firstKind_of_split {first rest : List Token} {next current : Token}
    {others : List Token} (split : current :: others = first ++ next :: rest) :
    current.kind = firstKind first next.kind := by
  cases first with
  | nil => simp only [List.nil_append, List.cons.injEq] at split; simp [split.1]
  | cons token first =>
      simp only [List.cons_append, List.cons.injEq] at split
      simp [split.1]

theorem exists_first (taken : List Token) (next : Token) (rest : List Token) :
    ∃ first others, first :: others = taken ++ next :: rest := by
  cases taken with
  | nil => exact ⟨next, rest, rfl⟩
  | cons token taken => exact ⟨token, taken ++ next :: rest, rfl⟩

namespace Parsing

variable {α β : Type}

/-- Nothing is taken. -/
def pure (value : α) : Parsing α := fun result taken _ =>
  result = value ∧ taken = []

/-- One reading after another, which may depend on what the first one yields. -/
def andThen (first : Parsing α) (second : α → Parsing β) : Parsing β := fun result taken next =>
  ∃ value before after, taken = before ++ after ∧
    first value before (firstKind after next) ∧ second value result after next

/-- One token of the given kind. -/
def token (kind : Kind) : Parsing Token := fun result taken _ =>
  result.kind = kind ∧ taken = [result]

/-- A name. -/
def name : Parsing Ident := fun result taken _ =>
  ∃ token : Token, token.kind = .identifier ∧ taken = [token] ∧
    result = { text := token.lexeme, position := token.position }

/-- A token of the given kind, if there is one. -/
def accepted (kind : Kind) : Parsing Bool := fun result taken next =>
  (result = true ∧ ∃ token : Token, token.kind = kind ∧ taken = [token]) ∨
    (result = false ∧ taken = [] ∧ next ≠ kind)

/-- A token for whose kind there is a meaning, if there is one. -/
def acceptedAs (meaning : Kind → Option α) : Parsing (Option (α × Position)) :=
  fun result taken next =>
    (∃ (value : α) (token : Token), meaning token.kind = some value ∧
      result = some (value, token.position) ∧ taken = [token]) ∨
      (result = none ∧ taken = [] ∧ meaning next = none)

/-- Whether a token of the given kind follows. -/
def seen (kind : Kind) : Parsing Bool := fun result taken next =>
  result = decide (next = kind) ∧ taken = []

/-- One reading after a token of the given kind, and another where there is none. -/
def ifAccepted (kind : Kind) (yes no : Parsing α) : Parsing α := fun result taken next =>
  (∃ (token : Token) (after : List Token), token.kind = kind ∧ taken = token :: after ∧
    yes result after next) ∨
    (firstKind taken next ≠ kind ∧ no result taken next)

variable {second : Token → Parsing β} {named : Ident → Parsing β} {result : β}
  {taken : List Token} {next : Kind}

theorem andThen_token {kind : Kind} :
    (token kind).andThen second result taken next ↔
      ∃ first after, first.kind = kind ∧ taken = first :: after ∧
        second first result after next := by
  constructor
  · rintro ⟨first, _, after, rfl, ⟨isKind, rfl⟩, reads⟩
    exact ⟨first, after, isKind, rfl, reads⟩
  · rintro ⟨first, after, isKind, rfl, reads⟩
    exact ⟨first, [first], after, rfl, ⟨isKind, rfl⟩, reads⟩

theorem andThen_name :
    name.andThen named result taken next ↔
      ∃ first after, first.kind = .identifier ∧ taken = first :: after ∧
        named { text := first.lexeme, position := first.position } result after next := by
  constructor
  · rintro ⟨_, _, after, rfl, ⟨first, isName, rfl, rfl⟩, reads⟩
    exact ⟨first, after, isName, rfl, reads⟩
  · rintro ⟨first, after, isName, rfl, reads⟩
    exact ⟨_, [first], after, rfl, ⟨first, isName, rfl, rfl⟩, reads⟩

theorem andThen_pure {first : Parsing α} {make : α → β} :
    (first.andThen fun value => pure (make value)) result taken next ↔
      ∃ value, first value taken next ∧ result = make value := by
  constructor
  · rintro ⟨value, before, _, rfl, reads, rfl, rfl⟩
    exact ⟨value, by simpa using reads, rfl⟩
  · rintro ⟨value, reads, rfl⟩
    exact ⟨value, taken, [], by simp, reads, rfl, rfl⟩

/-- Repetition of a step until it says to stop. -/
inductive Loop (step : β → Parsing (Bool × β)) : β → Parsing β
  | stop {state final : β} {taken : List Token} {next : Kind}
      (last : step state (false, final) taken next) : Loop step state final taken next
  | again {state middle final : β} {before after : List Token} {next : Kind}
      (first : step state (true, middle) before (firstKind after next))
      (rest : Loop step middle final after next) :
      Loop step state final (before ++ after) next

/-- A step takes a token whenever it is to be repeated. -/
def Progressing (step : β → Parsing (Bool × β)) : Prop :=
  ∀ {state following taken next}, step state (true, following) taken next → taken ≠ []

end Parsing

namespace Parser

variable {α β : Type} {limit : ArgumentLimit} {need : Int}

theorem bind_apply {ε : Type} (first : EStateM ε Stream α) (second : α → EStateM ε Stream β)
    (stream : Stream) :
    (first >>= second) stream =
      match first stream with
      | .ok value following => second value following
      | .error interrupt following => .error interrupt following := by
  simp only [Bind.bind, EStateM.bind]
  cases first stream <;> rfl

theorem pure_apply {ε : Type} (value : α) (stream : Stream) :
    (Pure.pure value : EStateM ε Stream α) stream = .ok value stream := rfl

/-! ### Soundness -/

/-- When a parser may give up: nesting is too deep only for streams of more than half of `need`
tokens, and a limit is incomparable only if it is. -/
def Excused (limit : ArgumentLimit) (need : Int) (stream : Stream) : Interrupt → Prop
  | .syntaxError _ => True
  | .abort .tooDeep => need < 2 * (stream.tokens.length : Int)
  | .abort .incomparableLimit => limit = .incomparable

theorem Excused.mono {stream following : Stream} {smaller : Int} {interrupt : Interrupt}
    (excused : Excused limit need following interrupt)
    (less : smaller + 2 * following.tokens.length ≤ need + 2 * (stream.tokens.length : Int)) :
    Excused limit smaller stream interrupt := by
  cases interrupt with
  | syntaxError error => trivial
  | abort reason =>
      cases reason with
      | tooDeep =>
          simp only [Excused] at excused ⊢
          omega
      | incomparableLimit => exact excused

/-- How a parser may come out of a stream: it has moved forward and added errors, if anything; and
if no error has been reported up to the end, its result and the tokens taken are as the reading
says. -/
def Outcome (limit : ArgumentLimit) (need : Int) (stream : Stream) (reading : Parsing α) :
    EStateM.Result Interrupt Stream α → Prop
  | .ok value following =>
      ∃ taken, Passes stream taken following ∧
        (following.errors = #[] → reading value taken following.current.kind)
  | .error interrupt following =>
      (∃ taken, Passes stream taken following) ∧ Excused limit need stream interrupt

theorem Outcome.mono {stream : Stream} {reading other : Parsing α}
    {result : EStateM.Result Interrupt Stream α}
    (outcome : Outcome limit need stream reading result)
    (weaker : ∀ value taken next, reading value taken next → other value taken next) :
    Outcome limit need stream other result := by
  cases result with
  | ok value following =>
      rcases outcome with ⟨taken, passes, reads⟩
      exact ⟨taken, passes, fun clean => weaker _ _ _ (reads clean)⟩
  | error interrupt following => exact outcome

/-- A parser that comes out of every proper stream as its reading says. -/
def Sound (limit : ArgumentLimit) (need : Int) (parser : Parser α) (reading : Parsing α) : Prop :=
  ∀ stream : Stream, stream.Proper → Outcome limit need stream reading (parser stream)

/-- Taking the next token first.  What follows runs on a shorter stream, so it may need two more
levels. -/
theorem Sound.advancing {second : Parser α} {reading : Parsing α} {stream : Stream}
    (sound : Sound limit (need - 2) second reading) (proper : stream.Proper)
    (inside : stream.current.kind ≠ .eof) :
    Outcome limit need stream
      (fun value taken next => ∃ after, taken = stream.current :: after ∧ reading value after next)
      (second stream.advance) := by
  have passes := proper.passes_advance inside
  have shorter := passes.length_lt (by simp)
  have outcome := sound stream.advance (passes.proper proper)
  cases result : second stream.advance with
  | ok value following =>
      rw [result] at outcome
      rcases outcome with ⟨taken, passesAfter, reads⟩
      exact ⟨_, passes.trans passesAfter, fun clean => ⟨taken, rfl, reads clean⟩⟩
  | error interrupt following =>
      rw [result] at outcome
      rcases outcome with ⟨⟨taken, passesAfter⟩, excused⟩
      exact ⟨⟨_, passes.trans passesAfter⟩, excused.mono (by omega)⟩

namespace Sound

variable {parser : Parser α} {reading : Parsing α}

theorem mono {other : Parsing α} (sound : Sound limit need parser reading)
    (weaker : ∀ value taken next, reading value taken next → other value taken next) :
    Sound limit need parser other :=
  fun stream proper => (sound stream proper).mono weaker

theorem needLess {smaller : Int} (sound : Sound limit need parser reading)
    (less : smaller ≤ need) : Sound limit smaller parser reading := by
  intro stream proper
  have outcome := sound stream proper
  cases result : parser stream with
  | ok value following =>
      rw [result] at outcome
      exact outcome
  | error interrupt following =>
      rw [result] at outcome
      exact ⟨outcome.1, outcome.2.mono (by omega)⟩

theorem pure (value : α) : Sound limit need (Pure.pure value) (Parsing.pure value) := by
  intro stream _
  exact ⟨[], Passes.refl stream, fun _ => ⟨rfl, rfl⟩⟩

/-- The parser that follows runs on a later stream, so what excuses it excuses the whole. -/
theorem bind {second : α → Parser β} {readings : α → Parsing β}
    (first : Sound limit need parser reading)
    (others : ∀ value, Sound limit need (second value) (readings value)) :
    Sound limit need (parser >>= second) (reading.andThen readings) := by
  intro stream proper
  have outcome := first stream proper
  rw [bind_apply]
  cases result : parser stream with
  | error interrupt following =>
      rw [result] at outcome
      exact outcome
  | ok value middle =>
      rw [result] at outcome
      rcases outcome with ⟨before, passes, reads⟩
      have continued := others value middle (passes.proper proper)
      simp only
      cases finished : second value middle with
      | error interrupt following =>
          rw [finished] at continued
          rcases continued with ⟨⟨after, passesAfter⟩, excused⟩
          refine ⟨⟨before ++ after, passes.trans passesAfter⟩, excused.mono ?_⟩
          have := passes.length_le
          omega
      | ok final following =>
          rw [finished] at continued
          rcases continued with ⟨after, passesAfter, readsAfter⟩
          refine ⟨before ++ after, passes.trans passesAfter, fun clean => ?_⟩
          refine ⟨value, before, after, rfl, ?_, readsAfter clean⟩
          have found := reads (passesAfter.clean clean)
          have split := passesAfter.tokens
          rw [Stream.tokens, Stream.tokens] at split
          rwa [firstKind_of_split split] at found

theorem fail (what : Expectation) : Sound limit need (Parser.fail what : Parser α) reading := by
  intro stream _
  exact ⟨⟨[], Passes.refl stream⟩, trivial⟩

theorem expect {kind : Kind} (inside : kind ≠ .eof) (what : Expectation) :
    Sound limit need (Parser.expect kind what) (Parsing.token kind) := by
  intro stream proper
  unfold Parser.expect
  split
  · rename_i isKind
    exact ⟨[stream.current], proper.passes_advance (isKind ▸ inside), fun _ => ⟨isKind, rfl⟩⟩
  · exact ⟨⟨[], Passes.refl stream⟩, trivial⟩

theorem name (what : Expectation) : Sound limit need (Parser.name what) Parsing.name := by
  refine (bind (expect (by decide) what) fun token => pure _).mono ?_
  rintro value taken next ⟨token, before, after, rfl, ⟨isName, rfl⟩, rfl, rfl⟩
  exact ⟨token, isName, by simp, rfl⟩

theorem check (kind : Kind) : Sound limit need (Parser.check kind) (Parsing.seen kind) := by
  intro stream _
  exact ⟨[], Passes.refl stream, fun _ => ⟨rfl, rfl⟩⟩

theorem accept {kind : Kind} (inside : kind ≠ .eof) :
    Sound limit need (Parser.accept kind) (Parsing.accepted kind) := by
  intro stream proper
  unfold Parser.accept
  by_cases isKind : stream.current.kind = kind
  · simp only [isKind, ↓reduceIte]
    exact ⟨[stream.current], proper.passes_advance (isKind ▸ inside),
      fun _ => Or.inl ⟨rfl, stream.current, isKind, rfl⟩⟩
  · simp only [isKind, ↓reduceIte]
    exact ⟨[], Passes.refl stream, fun _ => Or.inr ⟨rfl, rfl, isKind⟩⟩

theorem acceptAs? {meaning : Kind → Option α} (inside : meaning .eof = none) :
    Sound limit need (Parser.acceptAs? meaning) (Parsing.acceptedAs meaning) := by
  intro stream proper
  unfold Parser.acceptAs?
  cases found : meaning stream.current.kind with
  | none => exact ⟨[], Passes.refl stream, fun _ => Or.inr ⟨rfl, rfl, found⟩⟩
  | some value =>
      refine ⟨[stream.current], proper.passes_advance ?_,
        fun _ => Or.inl ⟨value, stream.current, found, rfl, rfl⟩⟩
      intro isEnd
      rw [isEnd, inside] at found
      cases found

/-- What follows an accepted token runs on a shorter stream. -/
theorem ifAccept {kind : Kind} (inside : kind ≠ .eof) {yes no : Parser α}
    {readingYes readingNo : Parsing α} (soundYes : Sound limit (need - 2) yes readingYes)
    (soundNo : Sound limit need no readingNo) :
    Sound limit need (do if ← Parser.accept kind then yes else no)
      (Parsing.ifAccepted kind readingYes readingNo) := by
  intro stream proper
  rw [bind_apply]
  unfold Parser.accept
  by_cases isKind : stream.current.kind = kind
  · simp only [isKind, ↓reduceIte]
    refine (soundYes.advancing proper (isKind ▸ inside)).mono ?_
    rintro value taken next ⟨after, rfl, reads⟩
    exact Or.inl ⟨_, after, isKind, rfl, reads⟩
  · simp only [isKind, ↓reduceIte, Bool.false_eq_true]
    have outcome := soundNo stream proper
    cases result : no stream with
    | ok value following =>
        rw [result] at outcome
        rcases outcome with ⟨taken, passes, reads⟩
        refine ⟨taken, passes, fun clean => Or.inr ⟨?_, reads clean⟩⟩
        have split := passes.tokens
        rw [Stream.tokens, Stream.tokens] at split
        rwa [← firstKind_of_split split]
    | error interrupt following =>
        rw [result] at outcome
        exact outcome

/-- Reporting an error leaves nothing to be said about the result. -/
theorem report (cause : SyntaxCause) (token : Token) (reading : Parsing Unit) :
    Sound limit need (Parser.report cause token) reading := by
  intro stream _
  refine ⟨[], Passes.report stream _, fun clean => ?_⟩
  simp [Stream.report] at clean

theorem repeatUpTo {step : β → Parser (Bool × β)} {readings : β → Parsing (Bool × β)}
    (sound : ∀ state, Sound limit need (step state) (readings state))
    (progressing : Parsing.Progressing readings) (bound : Nat) (state : β) :
    Sound limit need (Parser.repeatUpTo step bound state) (fun final taken next =>
      ∀ rest : List Token, (taken ++ rest).length ≤ bound → rest ≠ [] →
        Parsing.Loop readings state final taken next) := by
  induction bound generalizing state with
  | zero =>
      intro stream _
      refine ⟨[], Passes.refl stream, fun _ rest short nonempty => ?_⟩
      exact absurd (List.length_eq_zero_iff.1 (Nat.le_zero.1 short)) (by simpa using nonempty)
  | succ bound ih =>
      intro stream proper
      have first := sound state stream proper
      unfold Parser.repeatUpTo
      cases result : step state stream with
      | error interrupt following =>
          rw [result] at first
          exact first
      | ok outcome middle =>
          rcases outcome with ⟨again, following⟩
          rw [result] at first
          rcases first with ⟨before, passes, reads⟩
          cases again with
          | false =>
              exact ⟨before, passes, fun clean _ _ _ => .stop (reads clean)⟩
          | true =>
              have others := ih following middle (passes.proper proper)
              simp only
              cases finished : Parser.repeatUpTo step bound following middle with
              | error interrupt last =>
                  rw [finished] at others
                  rcases others with ⟨⟨after, passesAfter⟩, excused⟩
                  refine ⟨⟨_, passes.trans passesAfter⟩, excused.mono ?_⟩
                  have := passes.length_le
                  omega
              | ok final last =>
                  rw [finished] at others
                  rcases others with ⟨after, passesAfter, loops⟩
                  refine ⟨_, passes.trans passesAfter, fun clean rest short nonempty => ?_⟩
                  have step := reads (passesAfter.clean clean)
                  have taken := List.length_pos_iff.2 (progressing step)
                  have split := passesAfter.tokens
                  rw [Stream.tokens, Stream.tokens] at split
                  rw [firstKind_of_split split] at step
                  refine .again step (loops clean rest ?_ nonempty)
                  simp only [List.length_append] at short ⊢
                  omega

theorem repeating {step : β → Parser (Bool × β)} {readings : β → Parsing (Bool × β)}
    (sound : ∀ state, Sound limit need (step state) (readings state))
    (progressing : Parsing.Progressing readings) (state : β) :
    Sound limit need (Parser.repeating step state) (Parsing.Loop readings state) := by
  intro stream proper
  have outcome := repeatUpTo sound progressing stream.size state stream proper
  unfold Parser.repeating
  cases result : Parser.repeatUpTo step stream.size state stream with
  | error interrupt following =>
      rw [result] at outcome
      exact outcome
  | ok final following =>
      rw [result] at outcome
      rcases outcome with ⟨taken, passes, loops⟩
      refine ⟨taken, passes, fun clean => loops clean following.tokens ?_ (by simp [Stream.tokens])⟩
      rw [← passes.tokens]
      exact proper.bounded

end Sound

/-! ### Completeness -/

/-- Wherever the tokens ahead are as the reading says, the parser takes them and yields the
result. -/
def Complete {ε : Type} (parser : EStateM ε Stream α) (reading : Parsing α) : Prop :=
  ∀ (stream : Stream) (value : α) (taken : List Token) (next : Token) (rest : List Token),
    stream.tokens = taken ++ next :: rest → stream.tokens.length ≤ stream.size →
      reading value taken next.kind → parser stream = .ok value (stream.moveTo next rest)

namespace Complete

variable {ε : Type} {parser : EStateM ε Stream α} {reading : Parsing α}

theorem mono {other : Parsing α} (complete : Complete parser reading)
    (stronger : ∀ value taken next, other value taken next → reading value taken next) :
    Complete parser other :=
  fun stream value taken next rest split bounded reads =>
    complete stream value taken next rest split bounded (stronger _ _ _ reads)

theorem pure (value : α) :
    Complete (Pure.pure value : EStateM ε Stream α) (Parsing.pure value) := by
  rintro stream result taken next rest split _ ⟨rfl, rfl⟩
  rw [pure_apply, stream.moveTo_self split]

theorem bind {second : α → EStateM ε Stream β} {readings : α → Parsing β}
    (first : Complete parser reading)
    (others : ∀ value, Complete (second value) (readings value)) :
    Complete (parser >>= second) (reading.andThen readings) := by
  rintro stream result taken next rest split bounded ⟨value, before, after, rfl, reads, readsAfter⟩
  rw [List.append_assoc] at split
  obtain ⟨middle, others', isMiddle⟩ := exists_first after next rest
  rw [← isMiddle] at split
  rw [← firstKind_of_split isMiddle] at reads
  have taken := first stream value before middle others' split bounded reads
  have shorter := congrArg List.length split
  rw [List.length_append] at shorter
  rw [bind_apply, taken]
  exact others value (stream.moveTo middle others') result after next rest
    (by rw [Stream.tokens_moveTo, isMiddle])
    (by rw [Stream.tokens_moveTo, Stream.size_moveTo]; omega) readsAfter

/-- A parser that begins by taking the next token. -/
theorem advancing {stream : Stream} {token next : Token} {after rest : List Token} {value : α}
    (complete : Complete parser reading)
    (split : stream.tokens = (token :: after) ++ next :: rest) (inside : token.kind ≠ .eof)
    (bounded : stream.tokens.length ≤ stream.size) (reads : reading value after next.kind) :
    stream.current = token ∧ parser stream.advance = .ok value (stream.moveTo next rest) := by
  obtain ⟨middle, others, isMiddle⟩ := exists_first after next rest
  have shorter := congrArg List.length split
  rw [List.cons_append, ← isMiddle] at split
  obtain ⟨current, advanced⟩ := Stream.advance_of_tokens split inside
  refine ⟨current, ?_⟩
  rw [advanced]
  refine complete (stream.moveTo middle others) value after next rest isMiddle ?_ reads
  rw [List.cons_append, List.length_cons, ← isMiddle] at shorter
  rw [Stream.tokens_moveTo, Stream.size_moveTo]
  omega

theorem expect {kind : Kind} (inside : kind ≠ .eof) (what : Expectation) :
    Complete (Parser.expect kind what) (Parsing.token kind) := by
  rintro stream value taken next rest split bounded ⟨isKind, rfl⟩
  obtain ⟨current, advanced⟩ := Stream.advance_of_tokens split (isKind ▸ inside)
  simp [Parser.expect, current, isKind, advanced]

theorem name (what : Expectation) : Complete (Parser.name what) Parsing.name := by
  refine (bind (expect (by decide) what) fun token => pure _).mono ?_
  rintro value taken next ⟨token, isName, rfl, rfl⟩
  exact ⟨token, [token], [], rfl, ⟨isName, rfl⟩, rfl, rfl⟩

theorem check (kind : Kind) : Complete (Parser.check kind) (Parsing.seen kind) := by
  rintro stream value taken next rest split _ ⟨rfl, rfl⟩
  rw [List.nil_append] at split
  have current : stream.current = next := (List.cons.inj split).1
  simp only [Parser.check, stream.moveTo_self split, current]

theorem accept {kind : Kind} (inside : kind ≠ .eof) :
    Complete (Parser.accept kind) (Parsing.accepted kind) := by
  rintro stream value taken next rest split bounded reads
  rcases reads with ⟨rfl, token, isKind, rfl⟩ | ⟨rfl, rfl, differs⟩
  · obtain ⟨current, advanced⟩ := Stream.advance_of_tokens split (isKind ▸ inside)
    simp [Parser.accept, current, isKind, advanced]
  · rw [List.nil_append] at split
    have current : stream.current = next := (List.cons.inj split).1
    simp [Parser.accept, current, differs, stream.moveTo_self split]

theorem acceptAs? {meaning : Kind → Option α} (inside : meaning .eof = none) :
    Complete (Parser.acceptAs? meaning) (Parsing.acceptedAs meaning) := by
  rintro stream value taken next rest split bounded reads
  rcases reads with ⟨value, token, found, rfl, rfl⟩ | ⟨rfl, rfl, missing⟩
  · have notEnd : token.kind ≠ .eof := by
      intro isEnd
      rw [isEnd, inside] at found
      cases found
    obtain ⟨current, advanced⟩ := Stream.advance_of_tokens split notEnd
    simp only [Parser.acceptAs?, current, found, advanced]
  · rw [List.nil_append] at split
    have current : stream.current = next := (List.cons.inj split).1
    simp only [Parser.acceptAs?, current, missing, stream.moveTo_self split]

theorem ifAccept {kind : Kind} (inside : kind ≠ .eof) {yes no : Parser α}
    {readingYes readingNo : Parsing α} (completeYes : Complete yes readingYes)
    (completeNo : Complete no readingNo) :
    Complete (do if ← Parser.accept kind then yes else no)
      (Parsing.ifAccepted kind readingYes readingNo) := by
  rintro stream value taken next rest split bounded
    (⟨token, after, isKind, rfl, reads⟩ | ⟨differs, reads⟩)
  · obtain ⟨current, taken⟩ := completeYes.advancing split (isKind ▸ inside) bounded reads
    rw [bind_apply]
    simp only [Parser.accept, current, isKind, ↓reduceIte, taken]
  · have current := split
    rw [Stream.tokens] at current
    rw [← firstKind_of_split current] at differs
    rw [bind_apply]
    simp only [Parser.accept, differs, ↓reduceIte, Bool.false_eq_true]
    exact completeNo stream value taken next rest split bounded reads

theorem repeatUpTo {step : β → EStateM ε Stream (Bool × β)}
    {readings : β → Parsing (Bool × β)}
    (complete : ∀ state, Complete (step state) (readings state))
    (progressing : Parsing.Progressing readings) {state final : β} {taken : List Token}
    {next : Token} {rest : List Token}
    (loops : Parsing.Loop readings state final taken next.kind) :
    ∀ (bound : Nat) (stream : Stream), stream.tokens = taken ++ next :: rest →
      stream.tokens.length ≤ stream.size → stream.tokens.length ≤ bound →
        Parser.repeatUpTo step bound state stream = .ok final (stream.moveTo next rest) := by
  generalize isNext : next.kind = kind at loops
  induction loops with
  | stop last =>
      intro bound stream split bounded enough
      subst isNext
      cases bound with
      | zero => simp [Stream.tokens] at enough
      | succ bound =>
          unfold Parser.repeatUpTo
          rw [complete _ stream _ _ next rest split bounded last]
  | @again state middle final before after kind first others ih =>
      intro bound stream split bounded enough
      subst isNext
      cases bound with
      | zero => simp [Stream.tokens] at enough
      | succ bound =>
          rw [List.append_assoc] at split
          obtain ⟨current, tokens, isCurrent⟩ := exists_first after next rest
          have lengths := congrArg List.length split
          have positive := List.length_pos_iff.2 (progressing first)
          rw [← isCurrent] at split
          rw [← firstKind_of_split isCurrent] at first
          rw [List.length_append, ← isCurrent] at lengths
          unfold Parser.repeatUpTo
          rw [complete _ stream _ _ current tokens split bounded first]
          exact ih rfl bound (stream.moveTo current tokens) isCurrent
            (by rw [Stream.tokens_moveTo, Stream.size_moveTo]; omega)
            (by rw [Stream.tokens_moveTo]; omega)

theorem repeating {step : β → EStateM ε Stream (Bool × β)}
    {readings : β → Parsing (Bool × β)}
    (complete : ∀ state, Complete (step state) (readings state))
    (progressing : Parsing.Progressing readings) (state : β) :
    Complete (Parser.repeating step state) (Parsing.Loop readings state) :=
  fun stream _ _ _ _ split bounded loops =>
    repeatUpTo complete progressing loops stream.size stream split bounded bounded

end Complete

end Parser

end LoxLang
