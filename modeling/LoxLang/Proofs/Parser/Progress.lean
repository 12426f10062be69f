/-
Module: LoxLang.Proofs.Parser.Progress
Purpose: Reading moves forward.  Whatever tokens there are, a parser leaves behind a later part of
  them; what stops it is found at the token it stands at; and the number of tokens is more than any
  of its loops can use.  A declaration that begins before the end takes at least one token, also if
  it has to be given up.
Main exports: SyntaxError.isFatal, Stream.Reports, Stream.Moves, Parser.Advances,
  Parser.expression_advances, Parser.declaration_advances, Parser.program_advances
-/
import LoxLang.Proofs.Parser.Program

namespace LoxLang

open LoxLang.Stream (Passes)

/-! ### Errors on the way -/

/-- Whether an error stops the declaration it is found in, so that reading resumes at a boundary. -/
def SyntaxError.isFatal (error : SyntaxError) : Bool :=
  match error.cause with
  | .expected _ => true
  | .invalidAssignmentTarget | .tooMany _ _ => false

namespace Stream

/-- The fatal errors that are reported while tokens are passed: each is found at the token that is
to be looked at next, and the stream is synchronized there. -/
inductive Reports : List Token → List SyntaxError → List Token → Prop where
  | pass (taken : List Token) (stream : Stream) : Reports (taken ++ stream.tokens) [] stream.tokens
  | recover {stream : Stream} {error : SyntaxError} (here : error.token = stream.current) :
      Reports stream.tokens [error] stream.synchronize.tokens
  | trans {tokens middle rest : List Token} {first second : List SyntaxError}
      (before : Reports tokens first middle) (after : Reports middle second rest) :
      Reports tokens (first ++ second) rest

theorem Reports.suffix {tokens rest : List Token} {errors : List SyntaxError}
    (reports : Reports tokens errors rest) : ∃ taken, tokens = taken ++ rest := by
  induction reports with
  | pass taken _ => exact ⟨taken, rfl⟩
  | @recover stream _ _ =>
      obtain ⟨taken, passes⟩ := passes_synchronize stream
      exact ⟨taken, passes.tokens⟩
  | trans _ _ first second =>
      obtain ⟨taken, rfl⟩ := first
      obtain ⟨more, rfl⟩ := second
      exact ⟨taken ++ more, (List.append_assoc ..).symm⟩

theorem Reports.ne_nil {tokens rest : List Token} {errors : List SyntaxError}
    (reports : Reports tokens errors rest) : rest ≠ [] := by
  induction reports with
  | pass _ _ => exact List.cons_ne_nil _ _
  | recover _ => exact List.cons_ne_nil _ _
  | trans _ _ _ last => exact last

/-- A stream comes from another by taking tokens and reporting errors. -/
structure Moves (stream following : Stream) : Prop where
  size : following.size = stream.size
  reports : ∃ reported, following.errors.toList = stream.errors.toList ++ reported ∧
    Reports stream.tokens (reported.filter SyntaxError.isFatal) following.tokens

namespace Moves

variable {stream middle following : Stream}

theorem refl (stream : Stream) : stream.Moves stream :=
  ⟨rfl, [], (List.append_nil _).symm, .pass [] stream⟩

theorem trans (first : stream.Moves middle) (second : middle.Moves following) :
    stream.Moves following := by
  obtain ⟨reported, same, reports⟩ := first.reports
  obtain ⟨more, sameToo, reportsToo⟩ := second.reports
  refine ⟨second.size.trans first.size, reported ++ more, ?_, ?_⟩
  · rw [sameToo, same, List.append_assoc]
  · rw [List.filter_append]
    exact reports.trans reportsToo

theorem passes (moves : stream.Moves following) : ∃ taken, Passes stream taken following := by
  obtain ⟨reported, same, reports⟩ := moves.reports
  obtain ⟨taken, split⟩ := reports.suffix
  exact ⟨taken, split, same ▸ List.prefix_append .., moves.size⟩

theorem proper (moves : stream.Moves following) (proper : stream.Proper) : following.Proper := by
  obtain ⟨taken, passes⟩ := moves.passes
  exact passes.proper proper

theorem length_le (moves : stream.Moves following) :
    following.tokens.length ≤ stream.tokens.length := by
  obtain ⟨taken, passes⟩ := moves.passes
  exact passes.length_le

theorem advance (proper : stream.Proper) (inside : stream.current.kind ≠ .eof) :
    stream.Moves stream.advance := by
  have passes := proper.passes_advance inside
  refine ⟨passes.size, [], ?_, ?_⟩
  · rw [List.append_nil, Stream.advance]
    split
    · rfl
    · split <;> rfl
  · rw [passes.tokens]
    exact .pass _ _

/-- Reporting an error that does not stop anything. -/
theorem report (stream : Stream) {error : SyntaxError} (harmless : error.isFatal = false) :
    stream.Moves (stream.report error) := by
  refine ⟨rfl, [error], by simp [Stream.report], ?_⟩
  rw [List.filter_cons_of_neg (by simp [harmless]), List.filter_nil]
  exact .pass [] (stream.report error)

/-- Reporting an error that stops a declaration, and looking for the next boundary. -/
theorem recover (stream : Stream) {error : SyntaxError} (fatal : error.isFatal = true)
    (here : error.token = stream.current) :
    stream.Moves (stream.report error).synchronize := by
  obtain ⟨taken, passes⟩ := passes_synchronize (stream.report error)
  have kept : (stream.report error).synchronize.errors = (stream.report error).errors := by
    rw [synchronize]
    split
    · rfl
    · split <;> rfl
  refine ⟨passes.size, [error], ?_, ?_⟩
  · rw [kept]
    simp [Stream.report]
  · rw [List.filter_cons_of_pos fatal, List.filter_nil]
    have found : error.token = (stream.report error).current := here
    exact .recover found

end Moves

/-- After an error that is not at the end the token it was found at is skipped. -/
theorem length_synchronize {stream : Stream} (proper : stream.Proper)
    (inside : stream.current.kind ≠ .eof) :
    stream.synchronize.tokens.length < stream.tokens.length := by
  have ends := proper.ends
  cases isRest : stream.rest with
  | nil =>
      rw [Stream.tokens, isRest] at ends
      exact absurd ends inside
  | cons following rest =>
      obtain ⟨taken, split⟩ := skipToBoundary_suffix stream.current following rest
      have lengths := congrArg List.length split
      rw [List.length_append] at lengths
      have notEnd : stream.atEnd = false := by simp [atEnd, inside]
      simp only [synchronize, isRest, notEnd, Bool.false_eq_true, ↓reduceIte, tokens,
        List.length_cons] at lengths ⊢
      omega

/-! ### Bounds -/

/-- The same stream with another bound for loops. -/
def resize (stream : Stream) (size : Nat) : Stream :=
  { stream with size := size }

@[simp] theorem current_resize (stream : Stream) (size : Nat) :
    (stream.resize size).current = stream.current :=
  rfl

@[simp] theorem size_resize (stream : Stream) (size : Nat) : (stream.resize size).size = size :=
  rfl

@[simp] theorem advance_resize (stream : Stream) (size : Nat) :
    (stream.resize size).advance = stream.advance.resize size := by
  rcases stream with ⟨current, rest, errors, bound⟩
  cases rest with
  | nil => rfl
  | cons following rest =>
      by_cases isEnd : current.kind = .eof <;> simp [advance, resize, atEnd, isEnd]

@[simp] theorem report_resize (stream : Stream) (size : Nat) (error : SyntaxError) :
    (stream.resize size).report error = (stream.report error).resize size :=
  rfl

@[simp] theorem synchronize_resize (stream : Stream) (size : Nat) :
    (stream.resize size).synchronize = stream.synchronize.resize size := by
  rcases stream with ⟨current, rest, errors, bound⟩
  cases rest with
  | nil => rfl
  | cons following rest =>
      by_cases isEnd : current.kind = .eof <;> simp [synchronize, resize, atEnd, isEnd]

end Stream

namespace Parser

variable {α β : Type} {parser : Parser α} {least : α → Nat} {stream : Stream}

/-! ### Parsers that move forward -/

/-- A result with another bound for loops. -/
def resized {ε : Type} (size : Nat) :
    EStateM.Result ε Stream α → EStateM.Result ε Stream α
  | .ok value following => .ok value (following.resize size)
  | .error interrupt following => .error interrupt (following.resize size)

/-- How a parser comes out of a stream: it has moved forward, by `least` tokens at least if it
yields something, and an error that stops it is found at the token it stands at. -/
def Forward (stream : Stream) (least : α → Nat) : EStateM.Result Interrupt Stream α → Prop
  | .ok value following =>
      stream.Moves following ∧ following.tokens.length + least value ≤ stream.tokens.length
  | .error interrupt following =>
      stream.Moves following ∧ ∀ error, interrupt = .syntaxError error →
        error.isFatal = true ∧ error.token = following.current

/-- A parser moves forward, and every bound for loops that is not less than the number of tokens
does for it. -/
structure Steps (stream : Stream) (least : α → Nat) (result : EStateM.Result Interrupt Stream α)
    (bounded : Nat → EStateM.Result Interrupt Stream α) : Prop where
  forward : Forward stream least result
  steady : ∀ size, stream.tokens.length ≤ size → bounded size = resized size result

/-- A parser moves forward from wherever it begins. -/
def Advances (least : α → Nat) (parser : Parser α) : Prop :=
  ∀ stream : Stream, stream.Proper →
    Steps stream least (parser stream) fun size => parser (stream.resize size)

/-- What takes no token, or need not. -/
abbrev Stays (parser : Parser α) : Prop :=
  Advances (fun _ => 0) parser

/-- What comes of a result when another parser goes on from it. -/
def goOn (next : α → Parser β) :
    EStateM.Result Interrupt Stream α → EStateM.Result Interrupt Stream β
  | .ok value following => next value following
  | .error interrupt following => .error interrupt following

namespace Steps

/-- What follows begins where the first part has stopped. -/
theorem bind {next : α → Parser β} {total : β → Nat}
    {bounded : Nat → EStateM.Result Interrupt Stream α} {result : EStateM.Result Interrupt Stream α}
    (proper : stream.Proper) (first : Steps stream least result bounded)
    (second : ∀ value, Advances (fun final => total final - least value) (next value)) :
    Steps stream total (goOn next result) fun size => goOn next (bounded size) := by
  obtain ⟨forward, steady⟩ := first
  cases result with
  | error interrupt following =>
      refine ⟨forward, fun size enough => ?_⟩
      rw [steady size enough]
      rfl
  | ok value following =>
      obtain ⟨moves, taken⟩ := forward
      obtain ⟨forwardToo, steadyToo⟩ := second value following (moves.proper proper)
      constructor
      · simp only [goOn]
        cases finished : next value following with
        | error interrupt last =>
            rw [finished] at forwardToo
            exact ⟨moves.trans forwardToo.1, forwardToo.2⟩
        | ok final last =>
            rw [finished] at forwardToo
            obtain ⟨movesToo, takenToo⟩ := forwardToo
            have both : last.tokens.length + (total final - least value) ≤
                following.tokens.length := takenToo
            exact ⟨moves.trans movesToo, by omega⟩
      · intro size large
        rw [steady size large]
        exact steadyToo size (by omega)

theorem mono {fewer : α → Nat} {bounded : Nat → EStateM.Result Interrupt Stream α}
    {result : EStateM.Result Interrupt Stream α} (steps : Steps stream least result bounded)
    (weaker : ∀ value, fewer value ≤ least value) : Steps stream fewer result bounded := by
  refine ⟨?_, steps.steady⟩
  have forward := steps.forward
  cases result with
  | error interrupt following => exact forward
  | ok value following =>
      obtain ⟨moves, taken⟩ := forward
      exact ⟨moves, Nat.le_trans (Nat.add_le_add_left (weaker value) _) taken⟩

/-- How many tokens are taken matters for the result at hand only. -/
theorem ofOk {fewer : α → Nat} {bounded : Nat → EStateM.Result Interrupt Stream α} {value : α}
    {following : Stream} (steps : Steps stream least (.ok value following) bounded)
    (weaker : fewer value ≤ least value) : Steps stream fewer (.ok value following) bounded := by
  obtain ⟨⟨moves, taken⟩, steady⟩ := steps
  exact ⟨⟨moves, Nat.le_trans (Nat.add_le_add_left weaker _) taken⟩, steady⟩

/-- Taking the next token first. -/
theorem advancing (proper : stream.Proper) (inside : stream.current.kind ≠ .eof)
    (after : Advances least parser) :
    Steps stream (fun value => least value + 1) (parser stream.advance)
      fun size => parser (stream.resize size).advance := by
  have moves := Stream.Moves.advance proper inside
  have shorter := (proper.passes_advance inside).length_lt (by simp)
  obtain ⟨forward, steady⟩ := after stream.advance (moves.proper proper)
  constructor
  · cases finished : parser stream.advance with
    | error interrupt last =>
        rw [finished] at forward
        exact ⟨moves.trans forward.1, forward.2⟩
    | ok final last =>
        rw [finished] at forward
        obtain ⟨movesOn, taken⟩ := forward
        exact ⟨moves.trans movesOn, Nat.lt_of_le_of_lt taken shorter⟩
  · intro size large
    rw [Stream.advance_resize]
    exact steady size (by omega)

/-- Taking the next token for a result. -/
theorem taking (proper : stream.Proper) (inside : stream.current.kind ≠ .eof) (value : α) :
    Steps stream (fun _ => 1) (.ok value stream.advance)
      fun size => .ok value (stream.resize size).advance := by
  have shorter := (proper.passes_advance inside).length_lt (by simp)
  refine ⟨⟨.advance proper inside, shorter⟩, fun size _ => ?_⟩
  rw [Stream.advance_resize]
  rfl

theorem staying (value : α) :
    Steps stream (fun _ => 0) (.ok value stream) fun size => .ok value (stream.resize size) :=
  ⟨⟨.refl stream, Nat.le_refl _⟩, fun _ _ => rfl⟩

theorem failing (what : Expectation) :
    Steps stream least (fail what stream) fun size => fail what (stream.resize size) := by
  refine ⟨⟨.refl stream, fun error isError => ?_⟩, fun _ _ => rfl⟩
  cases isError
  exact ⟨rfl, rfl⟩

end Steps

namespace Advances

theorem mono {fewer : α → Nat} (advances : Advances least parser)
    (weaker : ∀ value, fewer value ≤ least value) : Advances fewer parser :=
  fun stream proper => (advances stream proper).mono weaker

theorem stays (advances : Advances least parser) : Stays parser :=
  advances.mono fun _ => Nat.zero_le _

theorem pure {value : α} (nothing : least value = 0) : Advances least (Pure.pure value) :=
  fun _ _ => .ofOk (.staying value) (Nat.le_of_eq nothing)

/-- The tokens that two parts take add up. -/
theorem bind {next : α → Parser β} {total : β → Nat} (first : Advances least parser)
    (second : ∀ value, Advances (fun final => total final - least value) (next value)) :
    Advances total (parser >>= next) := by
  intro stream proper
  have resumes : ∀ from_, (parser >>= next) from_ = goOn next (parser from_) := by
    intro from_
    rw [bind_apply]
    cases parser from_ <;> rfl
  simp only [resumes]
  exact (first stream proper).bind proper second

/-- Something that takes as many tokens as are asked for, and then anything. -/
theorem andThen {next : α → Parser β} {total : Nat} (first : Advances (fun _ => total) parser)
    (second : ∀ value, Stays (next value)) : Advances (fun _ => total) (parser >>= next) :=
  first.bind fun value => (second value).mono fun _ => Nat.le_of_eq (Nat.sub_self total)

/-- Anything, and then something that takes as many tokens as are asked for. -/
theorem before {next : α → Parser β} {total : β → Nat} (first : Advances least parser)
    (second : ∀ value, Advances total (next value)) : Advances total (parser >>= next) :=
  first.bind fun value => (second value).mono fun _ => Nat.sub_le ..

theorem ite {condition : Prop} [Decidable condition] {yes no : Parser α}
    (whenTrue : condition → Advances least yes) (whenFalse : ¬condition → Advances least no) :
    Advances least (if condition then yes else no) := by
  split
  next holds => exact whenTrue holds
  next fails => exact whenFalse fails

theorem expect {kind : Kind} (inside : kind ≠ .eof) (what : Expectation) :
    Advances (fun _ => 1) (Parser.expect kind what) := by
  intro stream proper
  by_cases isKind : stream.current.kind = kind
  · simp only [Parser.expect, Stream.current_resize, isKind, ↓reduceIte]
    exact .taking proper (isKind ▸ inside) stream.current
  · simp only [Parser.expect, Stream.current_resize, isKind, ↓reduceIte]
    exact .failing what

theorem expectMark {kind : Kind} (inside : kind ≠ .eof) (spelling place : String) :
    Advances (fun _ => 1) (Parser.expectMark kind spelling place) :=
  expect inside _

theorem name (what : Expectation) : Advances (fun _ => 1) (Parser.name what) :=
  (expect (by decide) what).andThen fun _ => pure rfl

theorem check (kind : Kind) : Stays (Parser.check kind) :=
  fun _ _ => .staying _

theorem accept {kind : Kind} (inside : kind ≠ .eof) :
    Advances (fun taken => if taken then 1 else 0) (Parser.accept kind) := by
  intro stream proper
  by_cases isKind : stream.current.kind = kind
  · simp only [Parser.accept, Stream.current_resize, isKind, ↓reduceIte]
    exact .ofOk (Steps.taking proper (isKind ▸ inside) true) (Nat.le_refl 1)
  · simp only [Parser.accept, Stream.current_resize, isKind, ↓reduceIte]
    exact .ofOk (Steps.staying false) (Nat.le_refl 0)

theorem acceptAs? {meaning : Kind → Option α} (inside : meaning .eof = none) :
    Advances (fun found => if found.isSome then 1 else 0) (Parser.acceptAs? meaning) := by
  intro stream proper
  simp only [Parser.acceptAs?, Stream.current_resize]
  cases found : meaning stream.current.kind with
  | none => exact .ofOk (Steps.staying none) (Nat.le_refl 0)
  | some value =>
      have notEnd : stream.current.kind ≠ .eof := by
        intro isEnd
        rw [isEnd, inside] at found
        cases found
      exact .ofOk (Steps.taking proper notEnd _) (Nat.le_refl 1)

/-- Reporting an error that stops nothing. -/
theorem report {cause : SyntaxCause} {token : Token}
    (harmless : SyntaxError.isFatal ⟨cause, token⟩ = false) : Stays (Parser.report cause token) :=
  fun stream _ => ⟨⟨.report stream harmless, Nat.le_refl _⟩, fun _ _ => rfl⟩

theorem tooDeep : Advances least (Parser.tooDeep : Parser α) := by
  intro stream _
  refine ⟨⟨.refl stream, fun error isError => ?_⟩, fun _ _ => rfl⟩
  cases isError

theorem checkLimit (limit : ArgumentLimit) (what : ListRole) (size : Nat) :
    Stays (Parser.checkLimit limit what size) := by
  intro stream proper
  simp only [Parser.checkLimit, Stream.current_resize]
  cases limit.reached? size with
  | none =>
      refine ⟨⟨.refl stream, fun error isError => ?_⟩, fun _ _ => rfl⟩
      cases isError
  | some reached =>
      cases reached with
      | false => exact .staying ()
      | true => exact report rfl stream proper

/-! ### Loops -/

/-- The tokens that a turn of a loop takes if the loop is to go on. -/
abbrev ofTurn (turn : Bool × β) : Nat :=
  if turn.1 then 1 else 0

/-- A loop that takes a token in every turn but the last comes to its end before any bound that is
not less than the number of tokens. -/
theorem repeatUpTo {step : β → Parser (Bool × β)} (steps : ∀ state, Advances ofTurn (step state))
    {bound : Nat} {state : β} {stream : Stream} (proper : stream.Proper)
    (large : stream.tokens.length ≤ bound) :
    Forward stream (fun _ => 0) (Parser.repeatUpTo step bound state stream) ∧
      ∀ other size, stream.tokens.length ≤ other → stream.tokens.length ≤ size →
        Parser.repeatUpTo step other state (stream.resize size) =
          resized size (Parser.repeatUpTo step bound state stream) := by
  induction bound generalizing state stream with
  | zero => simp [Stream.tokens] at large
  | succ bound ih =>
      obtain ⟨forward, steady⟩ := steps state stream proper
      cases result : step state stream with
      | error interrupt following =>
          rw [result] at forward
          simp only [Parser.repeatUpTo, result]
          refine ⟨forward, fun other size largeToo enough => ?_⟩
          cases other with
          | zero => simp [Stream.tokens] at largeToo
          | succ other =>
              simp only [Parser.repeatUpTo, steady size enough, result, resized]
      | ok turn following =>
          rcases turn with ⟨again, next⟩
          rw [result] at forward
          obtain ⟨moves, taken⟩ := forward
          cases again with
          | false =>
              simp only [Parser.repeatUpTo, result]
              refine ⟨⟨moves, moves.length_le⟩, fun other size largeToo enough => ?_⟩
              cases other with
              | zero => simp [Stream.tokens] at largeToo
              | succ other =>
                  simp only [Parser.repeatUpTo, steady size enough, result, resized]
          | true =>
              have shorter : following.tokens.length + 1 ≤ stream.tokens.length := taken
              obtain ⟨rest, steadyRest⟩ := @ih next following (moves.proper proper) (by omega)
              simp only [Parser.repeatUpTo, result]
              constructor
              · cases finished : Parser.repeatUpTo step bound next following with
                | error interrupt last =>
                    rw [finished] at rest
                    exact ⟨moves.trans rest.1, rest.2⟩
                | ok final last =>
                    rw [finished] at rest
                    have movesAll := moves.trans rest.1
                    exact ⟨movesAll, movesAll.length_le⟩
              · intro other size largeToo enough
                cases other with
                | zero => simp [Stream.tokens] at largeToo
                | succ other =>
                    simp only [Parser.repeatUpTo, steady size enough, result, resized]
                    exact steadyRest other size (by omega) (by omega)

theorem repeating {step : β → Parser (Bool × β)} (steps : ∀ state, Advances ofTurn (step state))
    (initial : β) : Stays (Parser.repeating step initial) := by
  intro stream proper
  obtain ⟨forward, steady⟩ := @repeatUpTo _ step steps _ initial stream proper proper.bounded
  exact ⟨forward, fun size large => steady size size large large⟩

/-- What ends a loop is a turn that says so, not a bound. -/
theorem last_turn {step : β → Parser (Bool × β)} (steps : ∀ state, Advances ofTurn (step state))
    {bound : Nat} {state final : β} {stream following : Stream} (proper : stream.Proper)
    (large : stream.tokens.length ≤ bound)
    (result : Parser.repeatUpTo step bound state stream = .ok final following) :
    ∃ before middle, step before middle = .ok (false, final) following := by
  induction bound generalizing state stream with
  | zero => simp [Stream.tokens] at large
  | succ bound ih =>
      obtain ⟨forward, -⟩ := steps state stream proper
      simp only [Parser.repeatUpTo] at result
      cases turned : step state stream with
      | error interrupt rest =>
          rw [turned] at result
          cases result
      | ok turn rest =>
          rcases turn with ⟨again, next⟩
          rw [turned] at forward result
          obtain ⟨moves, taken⟩ := forward
          cases again with
          | false =>
              cases result
              exact ⟨state, stream, turned⟩
          | true =>
              have shorter : rest.tokens.length + 1 ≤ stream.tokens.length := taken
              exact ih (moves.proper proper) (by omega) result

theorem elements (limit : ArgumentLimit) (what : ListRole) (element : Stays parser) :
    Stays (Parser.elements limit what parser) := by
  refine (check .rightParen).before fun closes => .ite (fun _ => pure rfl) fun _ => ?_
  refine (repeating (fun seen => ?_) #[]).before fun all => pure rfl
  refine (checkLimit limit what seen.size).before fun _ => element.before fun value => ?_
  exact (accept (by decide)).bind fun more => pure (Nat.sub_self _)

end Advances

/-! ### Expressions -/

section Expressions

variable {operand expression : Parser (Expr Unit)}

theorem binaryChain_advances {operator? : Kind → Option BinaryOp} (inside : operator? .eof = none)
    (part : Stays operand) : Stays (binaryChain operator? operand) := by
  refine part.before fun first => .repeating (fun left => ?_) first
  refine (Advances.acceptAs? inside).bind fun found => ?_
  cases found with
  | none => exact .pure rfl
  | some found => exact part.before fun right => .pure rfl

theorem logicalChain_advances {kind : Kind} (inside : kind ≠ .eof) (op : LogicalOp)
    (part : Stays operand) : Stays (logicalChain kind op operand) := by
  refine part.before fun first => .repeating (fun left => ?_) first
  refine (Advances.accept inside).bind fun found => ?_
  cases found with
  | true => exact part.before fun right => .pure rfl
  | false => exact .pure rfl

theorem disjunction_advances (part : Stays operand) : Stays (disjunction operand) := by
  have factor : Stays (binaryChain BinaryOp.factor? operand) := binaryChain_advances rfl part
  have term : Stays (binaryChain BinaryOp.term? _) := binaryChain_advances rfl factor
  have comparison : Stays (binaryChain BinaryOp.comparison? _) := binaryChain_advances rfl term
  have equality : Stays (binaryChain BinaryOp.equality? _) := binaryChain_advances rfl comparison
  exact logicalChain_advances (by decide) .or (logicalChain_advances (by decide) .and equality)

theorem grouping_advances (inner : Stays expression) : Stays (grouping expression) :=
  inner.before fun _ => (Advances.expectMark (by decide) _ _).before fun _ => .pure rfl

theorem superMethod_advances (keyword : Position) : Stays (superMethod keyword) :=
  (Advances.expectMark (by decide) _ _).before fun _ => (Advances.name _).before fun _ => .pure rfl

theorem primary_advances (inner : Stays expression) : Stays (primary expression) := by
  intro stream proper
  have inside : ∀ {kind : Kind}, stream.current.kind = kind → kind ≠ .eof →
      stream.current.kind ≠ .eof := fun isKind notEnd => isKind ▸ notEnd
  have taken : ∀ {kind : Kind} (value : Expr Unit), stream.current.kind = kind → kind ≠ .eof →
      Steps stream (fun _ => 0) (.ok value stream.advance)
        fun size => .ok value (stream.resize size).advance := fun value isKind notEnd =>
    (Steps.taking proper (inside isKind notEnd) value).mono fun _ => Nat.zero_le 1
  simp only [primary, Stream.current_resize]
  cases isKind : stream.current.kind with
  | keyword word =>
      cases word with
      | super_ =>
          exact (Steps.advancing proper (inside isKind (by decide))
            (superMethod_advances stream.current.position)).mono fun _ => Nat.zero_le 1
      | true_ => exact taken _ isKind (by decide)
      | false_ => exact taken _ isKind (by decide)
      | nil_ => exact taken _ isKind (by decide)
      | this_ => exact taken _ isKind (by decide)
      | _ => exact .failing .expression
  | number => exact taken _ isKind (by decide)
  | string => exact taken _ isKind (by decide)
  | identifier => exact taken _ isKind (by decide)
  | leftParen =>
      exact (Steps.advancing proper (inside isKind (by decide))
        (grouping_advances inner)).mono fun _ => Nat.zero_le 1
  | _ => exact .failing .expression

theorem callArguments_advances (limit : ArgumentLimit) (inner : Stays expression)
    (callee : Expr Unit) : Stays (callArguments limit expression callee) :=
  (Advances.elements limit .arguments inner).before fun _ =>
    (Advances.expectMark (by decide) _ _).before fun _ => .pure rfl

theorem call_advances (limit : ArgumentLimit) (inner : Stays expression) :
    Stays (call limit expression) := by
  refine (primary_advances inner).before fun first => .repeating (fun callee => ?_) first
  refine (Advances.accept (by decide)).bind fun opens => ?_
  cases opens with
  | true => exact (callArguments_advances limit inner callee).before fun _ => .pure rfl
  | false =>
      refine (Advances.accept (by decide)).bind fun dotted => ?_
      cases dotted with
      | true => exact (Advances.name _).before fun _ => .pure rfl
      | false => exact .pure rfl

theorem assignTo_advances (target : Expr Unit) (equals : Token) (value : Expr Unit) :
    Stays (assignTo target equals value) := by
  cases target with
  | read name binding => exact .pure rfl
  | get object name => exact .pure rfl
  | _ => exact (Advances.report rfl).before fun _ => .pure rfl

theorem assignmentAfter_advances (inner : Stays expression) (target : Expr Unit) :
    Stays (assignmentAfter expression target) := by
  intro stream proper
  by_cases isEqual : stream.current.kind = .equal
  · simp only [assignmentAfter, Stream.current_resize, isEqual, ↓reduceIte]
    have after : Stays (expression >>= fun value => assignTo target stream.current value) :=
      inner.before fun value => assignTo_advances target stream.current value
    have inside : stream.current.kind ≠ .eof := by rw [isEqual]; decide
    exact (Steps.advancing proper inside after).mono fun _ => Nat.zero_le 1
  · simp only [assignmentAfter, Stream.current_resize, isEqual, ↓reduceIte]
    exact .staying target

variable {limit : ArgumentLimit}

theorem unary_succ_advances {room : Nat} (part : Stays (unary limit room))
    (whole : Stays (Parser.expression limit room)) : Stays (unary limit (room + 1)) := by
  intro stream proper
  simp only [unary_succ, Stream.current_resize]
  cases isOp : UnaryOp.ofKind? stream.current.kind with
  | none => exact call_advances limit whole stream proper
  | some op =>
      have inside : stream.current.kind ≠ .eof := by
        intro isEnd
        rw [isEnd] at isOp
        cases isOp
      have after : Stays (unary limit room >>= fun operand =>
          pure (Expr.unary op stream.current.position operand)) :=
        part.before fun operand => .pure rfl
      exact (Steps.advancing proper inside after).mono fun _ => Nat.zero_le 1

theorem unary_and_expression_advance (room : Nat) :
    Stays (unary limit room) ∧ Stays (Parser.expression limit room) := by
  induction room with
  | zero =>
      constructor
      · intro stream proper
        simp only [unary]
        exact Advances.tooDeep stream proper
      · intro stream proper
        simp only [Parser.expression]
        exact Advances.tooDeep stream proper
  | succ room ih =>
      obtain ⟨part, whole⟩ := ih
      refine ⟨unary_succ_advances part whole, ?_⟩
      rw [expression_succ]
      exact (disjunction_advances part).before (assignmentAfter_advances whole)

theorem expression_advances (room : Nat) : Stays (Parser.expression limit room) :=
  (unary_and_expression_advance room).2

end Expressions

/-! ### Statements -/

section Statements

variable {expression : Parser (Expr Unit)} {statement : Parser (Stmt Unit)}
  {declaration : Recovered (Option (Stmt Unit))}

/-- What takes a token at least. -/
abbrev Takes (parser : Parser α) : Prop :=
  Advances (fun _ => 1) parser

/-- What takes a token at least if there is one before the end. -/
def TakesInside (parser : Parser α) : Prop :=
  ∀ stream : Stream, stream.Proper → stream.current.kind ≠ .eof →
    Steps stream (fun _ => 1) (parser stream) fun size => parser (stream.resize size)

theorem expressionBefore_advances (kind : Kind) (value : Stays expression) :
    Stays (expressionBefore kind expression) :=
  (Advances.check kind).before fun _ =>
    .ite (fun _ => .pure rfl) fun _ => value.before fun _ => .pure rfl

theorem expressionStatement_advances (value : Stays expression) :
    Takes (expressionStatement expression) :=
  value.before fun _ => (Advances.expectMark (by decide) _ _).andThen fun _ => .pure rfl

theorem printStatement_advances (value : Stays expression) : Takes (printStatement expression) :=
  value.before fun _ => (Advances.expectMark (by decide) _ _).andThen fun _ => .pure rfl

theorem returnStatement_advances (keyword : Position) (value : Stays expression) :
    Takes (returnStatement keyword expression) :=
  (expressionBefore_advances _ value).before fun _ =>
    (Advances.expectMark (by decide) _ _).andThen fun _ => .pure rfl

theorem variableDeclaration_advances (value : Stays expression) :
    Takes (variableDeclaration expression) := by
  refine (Advances.name _).andThen fun name => (Advances.accept (by decide)).before fun _ =>
    .ite (fun _ => ?_) fun _ => ?_
  · exact value.before fun _ => (Advances.expectMark (by decide) _ _).before fun _ => .pure rfl
  · exact (Advances.expectMark (by decide) _ _).before fun _ => .pure rfl

/-- One turn of a loop over items.  If the loop ends at the end of the source, every item is read
from before the end. -/
theorem stepUntil_advances {ends : Kind → Bool} {item : Parser (Option α)}
    (atEnd : ends .eof = true) (items : TakesInside item) (seen : Array α) :
    Advances Advances.ofTurn (stepUntil ends item seen) := by
  intro stream proper
  by_cases stops : ends stream.current.kind = true
  · simp only [stepUntil, Stream.current_resize, stops, ↓reduceIte]
    exact .ofOk (.staying _) (Nat.le_refl 0)
  · have inside : stream.current.kind ≠ .eof := fun isEnd => stops (isEnd ▸ atEnd)
    have collect : ∀ found : Option α, Advances
        (fun turn : Bool × Array α => Advances.ofTurn turn - 1)
        (pure (true, found.elim seen seen.push)) :=
      fun found => .pure rfl
    have collected := (items stream proper inside).bind proper collect
    have same : ∀ from_ : Stream, from_.current.kind = stream.current.kind →
        stepUntil ends item seen from_ = goOn (fun found : Option α =>
          pure (true, found.elim seen seen.push))
          (item from_) := by
      intro from_ isKind
      simp only [stepUntil, isKind, stops, Bool.false_eq_true, ↓reduceIte]
      cases item from_ with
      | error interrupt rest => rfl
      | ok found rest => cases found <;> rfl
    rw [same stream rfl]
    have sameResized : (fun size => stepUntil ends item seen (stream.resize size)) = _ :=
      funext fun size => same (stream.resize size) rfl
    rw [sameResized]
    exact collected

theorem collecting_advances {ends : Kind → Bool} {item : Parser (Option α)}
    (atEnd : ends .eof = true) (items : TakesInside item) :
    Stays (repeating (stepUntil ends item) #[] >>= fun all => pure all.toList) :=
  (Advances.repeating (stepUntil_advances atEnd items) #[]).before fun _ => .pure rfl

theorem block_advances (declared : TakesInside (lift declaration)) : Takes (block declaration) := by
  have atEnd : Parsing.endsBlock .eof = true := rfl
  have body := collecting_advances atEnd declared
  rw [← declarations_eq] at body
  exact body.before fun _ => (Advances.expectMark (by decide) _ _).andThen fun _ => .pure rfl

theorem ifStatement_advances (value : Stays expression) (inner : Stays statement) :
    Takes (ifStatement expression statement) :=
  (Advances.expectMark (by decide) _ _).andThen fun _ => value.before fun _ =>
    (Advances.expectMark (by decide) _ _).before fun _ => inner.before fun _ =>
      (Advances.accept (by decide)).before fun _ =>
        .ite (fun _ => inner.before fun _ => .pure rfl) fun _ => .pure rfl

theorem whileLoop_advances (value : Stays expression) (inner : Stays statement) :
    Takes (whileLoop expression statement) :=
  (Advances.expectMark (by decide) _ _).andThen fun _ => value.before fun _ =>
    (Advances.expectMark (by decide) _ _).before fun _ => inner.before fun _ => .pure rfl

theorem forInitializer_advances (value : Stays expression) : Stays (forInitializer expression) :=
  (Advances.accept (by decide)).before fun _ => .ite (fun _ => .pure rfl) fun _ =>
    (Advances.accept (by decide)).before fun _ => .ite
      (fun _ => (variableDeclaration_advances value).before fun _ => .pure rfl)
      (fun _ => (expressionStatement_advances value).before fun _ => .pure rfl)

theorem forLoop_advances (value : Stays expression) (inner : Stays statement) :
    Takes (forLoop expression statement) :=
  (Advances.expectMark (by decide) _ _).andThen fun _ => (forInitializer_advances value).before
    fun _ => (expressionBefore_advances _ value).before fun _ =>
      (Advances.expectMark (by decide) _ _).before fun _ =>
        (expressionBefore_advances _ value).before fun _ =>
          (Advances.expectMark (by decide) _ _).before fun _ => inner.before fun _ => .pure rfl

/-- What begins with a token of its own takes at least one. -/
theorem Takes.led {rest : Parser (Stmt Unit)} (takes : Takes rest) (proper : stream.Proper)
    {kind : Kind} (isKind : stream.current.kind = kind) (notEnd : kind ≠ .eof) :
    Steps stream (fun _ => 1) (rest stream.advance)
      fun size => rest (stream.resize size).advance :=
  (Steps.advancing proper (isKind ▸ notEnd) takes).mono fun _ => Nat.le_succ 1

theorem statementOf_advances (value : Stays expression) (inner : Stays statement)
    (declared : TakesInside (lift declaration)) :
    Takes (statementOf expression statement declaration) := by
  intro stream proper
  by_cases isBrace : stream.current.kind = .leftBrace
  · have body : Takes (block declaration >>= fun body => pure (Stmt.block body)) :=
      (block_advances declared).andThen fun _ => .pure rfl
    have opened : ∀ from_ : Stream, from_.current.kind = .leftBrace →
        statementOf expression statement declaration from_ =
          (block declaration >>= fun body => pure (Stmt.block body)) from_.advance := by
      intro from_ isBrace
      simp only [statementOf, isBrace, bind_apply]
      cases block declaration from_.advance <;> rfl
    have openedResized :
        (fun size => statementOf expression statement declaration (stream.resize size)) = _ :=
      funext fun size => opened (stream.resize size) isBrace
    rw [opened stream isBrace, openedResized]
    exact body.led proper isBrace (by decide)
  · simp only [statementOf, Stream.current_resize]
    cases isKind : stream.current.kind with
    | keyword word =>
        cases word with
        | for_ => exact (forLoop_advances value inner).led proper isKind (by decide)
        | if_ => exact (ifStatement_advances value inner).led proper isKind (by decide)
        | print_ => exact (printStatement_advances value).led proper isKind (by decide)
        | return_ => exact (returnStatement_advances _ value).led proper isKind (by decide)
        | while_ => exact (whileLoop_advances value inner).led proper isKind (by decide)
        | _ => exact expressionStatement_advances value stream proper
    | leftBrace => exact absurd isKind isBrace
    | _ => exact expressionStatement_advances value stream proper

/-! ### Declarations -/

theorem function_advances (limit : ArgumentLimit) (role : FunctionRole)
    (declared : TakesInside (lift declaration)) : Takes (function limit role declaration) :=
  (Advances.name _).andThen fun _ => (Advances.expectMark (by decide) _ _).before fun _ =>
    (Advances.elements limit .parameters (Advances.name _).stays).before fun _ =>
      (Advances.expectMark (by decide) _ _).before fun _ =>
        (Advances.expectMark (by decide) _ _).before fun _ =>
          (block_advances declared).before fun _ => .pure rfl

theorem methods_advance (limit : ArgumentLimit) (declared : TakesInside (lift declaration)) :
    Stays (methods limit declaration) := by
  have method : Takes (function limit .method declaration >>= fun method => pure (some method)) :=
    (function_advances limit .method declared).andThen fun _ => .pure rfl
  rw [methods_eq]
  exact collecting_advances (by decide) fun stream proper _ => method stream proper

theorem classDeclaration_advances (limit : ArgumentLimit)
    (declared : TakesInside (lift declaration)) : Takes (classDeclaration limit declaration) := by
  have parent : Stays superclass? := (Advances.accept (by decide)).before fun _ =>
    .ite (fun _ => (Advances.name _).before fun _ => .pure rfl) fun _ => .pure rfl
  exact (Advances.name _).andThen fun _ => parent.before fun _ =>
    (Advances.expectMark (by decide) _ _).before fun _ => (methods_advance limit declared).before
      fun _ => (Advances.expectMark (by decide) _ _).before fun _ => .pure rfl

theorem declarationOf_advances (limit : ArgumentLimit) (value : Stays expression)
    (inner : Takes statement) (declared : TakesInside (lift declaration)) :
    Takes (declarationOf limit expression statement declaration) := by
  intro stream proper
  simp only [declarationOf, Stream.current_resize]
  cases isKind : stream.current.kind with
  | keyword word =>
      cases word with
      | class_ => exact (classDeclaration_advances limit declared).led proper isKind (by decide)
      | fun_ =>
          have declaredFunction : Takes (functionDeclaration limit declaration) :=
            (function_advances limit .function declared).andThen fun _ => .pure rfl
          exact declaredFunction.led proper isKind (by decide)
      | var_ => exact (variableDeclaration_advances value).led proper isKind (by decide)
      | _ => exact inner stream proper
  | _ => exact inner stream proper

/-- A stream that has come to another kind of token has passed some. -/
theorem length_lt_of_kind_ne {following : Stream} (moves : stream.Moves following)
    (different : following.current.kind ≠ stream.current.kind) :
    following.tokens.length < stream.tokens.length := by
  obtain ⟨taken, passes⟩ := moves.passes
  apply passes.length_lt
  rintro rfl
  have same := passes.tokens
  simp only [List.nil_append, Stream.tokens, List.cons.injEq] at same
  exact different (congrArg Token.kind same.1.symm)

/-- An error is caught where it was found, and the token it was found at is skipped.  If there is
none to skip, the end has been reached on the way. -/
theorem recovering_advances (takes : Takes parser) : TakesInside (lift (recovering parser)) := by
  intro stream proper inside
  obtain ⟨forward, steady⟩ := takes stream proper
  cases result : parser stream with
  | ok value following =>
      rw [result] at forward steady
      simp only [lift, recovering, result]
      exact ⟨forward, fun size large => by rw [steady size large]; rfl⟩
  | error interrupt following =>
      rw [result] at forward steady
      obtain ⟨moves, atError⟩ := forward
      cases interrupt with
      | abort reason =>
          simp only [lift, recovering, result]
          refine ⟨⟨moves, fun error isError => ?_⟩, fun size large => ?_⟩
          · cases isError
          · rw [steady size large]
            rfl
      | syntaxError error =>
          obtain ⟨fatal, here⟩ := atError error rfl
          have recovers := Stream.Moves.recover following fatal here
          simp only [lift, recovering, result]
          refine ⟨⟨moves.trans recovers, ?_⟩, fun size large => ?_⟩
          · by_cases isEnd : following.current.kind = .eof
            · have shorter := length_lt_of_kind_ne moves (isEnd ▸ inside.symm)
              exact Nat.lt_of_le_of_lt recovers.length_le shorter
            · have reported : (following.report error).Proper :=
                (Stream.Passes.report following error).proper (moves.proper proper)
              have shorter := Stream.length_synchronize reported isEnd
              exact Nat.lt_of_lt_of_le shorter moves.length_le
          · rw [steady size large]
            simp only [resized, Stream.report_resize, Stream.synchronize_resize]

theorem statement_and_declaration_advance (limit : ArgumentLimit) (room : Nat) :
    Takes (Parser.statement limit room) ∧ TakesInside (lift (Parser.declaration limit room)) := by
  induction room with
  | zero =>
      constructor
      · intro stream proper
        simp only [Parser.statement]
        exact Advances.tooDeep stream proper
      · intro stream proper _
        simp only [lift, Parser.declaration]
        exact Advances.tooDeep stream proper
  | succ room ih =>
      obtain ⟨inner, declared⟩ := ih
      have value : Stays (Parser.expression limit room) := expression_advances room
      constructor
      · rw [statement_succ]
        exact statementOf_advances value inner.stays declared
      · rw [declaration_succ]
        exact recovering_advances (declarationOf_advances limit value inner declared)

theorem declaration_advances (limit : ArgumentLimit) (room : Nat) :
    TakesInside (lift (Parser.declaration limit room)) :=
  (statement_and_declaration_advance limit room).2

theorem program_advances (limit : ArgumentLimit) (room : Nat) :
    Stays (lift (program (Parser.declaration limit room))) := by
  rw [lift_program]
  exact collecting_advances (by decide) (declaration_advances limit room)

/-- Reading a program stops at the end. -/
theorem program_atEnd {limit : ArgumentLimit} {room : Nat} {program : List (Stmt Unit)}
    {following : Stream} (proper : stream.Proper)
    (read : Parser.program (Parser.declaration limit room) stream = .ok program following) :
    following.current.kind = .eof := by
  have atEnd : endsSource .eof = true := rfl
  have turns := stepUntil_advances atEnd (declaration_advances limit room)
  have lifted := lift_ok read
  rw [lift_program, bind_apply] at lifted
  cases collected : repeating (stepUntil endsSource (lift (Parser.declaration limit room))) #[]
      stream with
  | error interrupt rest =>
      rw [collected] at lifted
      cases lifted
  | ok all rest =>
      rw [collected] at lifted
      cases lifted
      obtain ⟨before, middle, stops⟩ := Advances.last_turn turns proper proper.bounded collected
      simp only [stepUntil] at stops
      split at stops
      next isEnd =>
        cases stops
        simpa [endsSource] using isEnd
      next => split at stops <;> cases stops

end Statements

end Parser

end LoxLang
