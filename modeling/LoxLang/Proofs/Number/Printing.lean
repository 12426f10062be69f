/-
Module: LoxLang.Proofs.Number.Printing
Purpose: Printed numbers are faithful.  Numbers print alike exactly if they are the same, what is
  printed denotes the shortest decimal that reads back as the number, and a program that prints a
  number that was printed with all its places prints it again.
Main exports: Number.toBits_signed, scan_printing, Session.run_printing, Number.printed_faithful
-/
import LoxLang.Proofs.Number.Reading
import LoxLang.Proofs.Number.Writing
import LoxLang.Proofs.Run.Acceptance
import LoxLang.Proofs.Token.Scanning

namespace LoxLang

/-! ### Numerals in a source -/

namespace Numeral

variable {text : List Char}

/-- A number that is written with all its places is a word of a source. -/
theorem Positional.longest (positional : Positional text) {after : List Char} (c : Char)
    (noDigit : isDigit c = false) (noPoint : c ≠ '.') : Longest .number text (c :: after) := by
  obtain ⟨whole, fraction, digits, digitsFraction, nonempty, -, -, rfl⟩ := positional
  obtain ⟨first, rest, rfl⟩ := List.exists_cons_of_ne_nil nonempty
  obtain ⟨firstDigit, restDigits⟩ := List.forall_mem_cons.1 digits
  have stops : ∀ d ∈ (c :: after).head?, isDigit d = false := by
    intro d isNext
    cases isNext
    exact noDigit
  cases fraction with
  | nil =>
      rw [Layout.fraction, if_neg Bool.false_ne_true, List.append_nil]
      refine .whole firstDigit restDigits stops fun d more isPoint => ?_
      exact absurd (List.cons.inj isPoint).1 noPoint
  | cons next more =>
      obtain ⟨nextDigit, moreDigits⟩ := List.forall_mem_cons.1 digitsFraction
      exact .fraction firstDigit restDigits nextDigit moreDigits stops

/-- It is read as the number that its decimal rounds to. -/
theorem Positional.toBits_numeral {order : ℕ} (positional : Positional text)
    (rounds : Rounds (magnitude text) order) (finite : order < 2047 * 2 ^ 52) :
    (numeral text).toBits.toNat = order := by
  obtain ⟨whole, fraction, digits, digitsFraction, nonempty, -, -, rfl⟩ := positional
  have denotes := magnitude_point false digits digitsFraction
  have isNumeral : numeral (whole ++ Layout.fraction false fraction) =
      Number.ofDigits (whole ++ fraction) fraction.length := by
    have isWhole : ∀ c ∈ whole, isDigit c = true := digits
    unfold numeral
    dsimp only
    rw [List.takeWhile_append_of_pos isWhole, List.dropWhile_append_of_pos isWhole]
    cases fraction with
    | nil => simp [Layout.fraction]
    | cons next more =>
        have noDigit : isDigit '.' = false := rfl
        simp [Layout.fraction, noDigit]
  rw [denotes, zpow_neg, zpow_natCast, ← div_eq_mul_inv] at rounds
  rw [isNumeral]
  exact Reading.toBits_ofScientific rounds finite

end Numeral

namespace Number

variable {bits : UInt64}

/-- The magnitude of a number that is printed with all its places. -/
def magnitudeText (bits : UInt64) : List Char :=
  printed.magnitude (.ofFields (.ofBits bits))

theorem toList_writeBits_finite (finite : (Fields.ofBits bits).isSpecial = false) :
    (printed.writeBits bits).toList =
      (if (Fields.ofBits bits).negative then ['-'] else []) ++ magnitudeText bits := by
  have number : (Fields.ofBits bits).isNaN = false := by simp [Fields.isNaN, finite]
  rw [Layout.toList_writeBits, number, Layout.body, number, finite, magnitudeText]
  cases (Fields.ofBits bits).negative <;> rfl

/-- A number that is printed with all its places is read again as the same number, and the sign in
front of it is put back by taking the opposite. -/
theorem toBits_signed (finite : (Fields.ofBits bits).isSpecial = false)
    (plain : Plain (.ofFields (.ofBits bits))) :
    (if (Fields.ofBits bits).negative then -numeral (magnitudeText bits)
      else numeral (magnitudeText bits)).toBits = bits := by
  have normal := Fields.normal (Fields.fraction_lt bits)
  have inside := Packing.order_lt finite
  have rounds := Binary.shown_rounds normal
  rw [← Layout.magnitude_denotes printed_legible] at rounds
  have isRead := ((printed_form normal).1 plain).toBits_numeral rounds inside
  change (numeral (magnitudeText bits)).toBits.toNat = _ at isRead
  rw [← UInt64.toNat_inj, Fields.toNat_eq bits, ← Fields.order_eq]
  cases negative : (Fields.ofBits bits).negative with
  | false =>
      simp only [Bool.false_eq_true, if_false, zero_add]
      exact isRead
  | true =>
      have isBits : (numeral (magnitudeText bits)).toBits.toNat =
          (if false then 2 ^ 63 else 0) + (Binary.ofFields (.ofBits bits)).order := by
        simpa using isRead
      obtain ⟨finiteRead, signRead, isNumber⟩ := Packing.fields_of_toNat normal inside isBits
      simp only [if_true]
      rw [toNat_toBits_neg finiteRead, signRead, isNumber]
      rfl

end Number

/-! ### A program that prints a number -/

/-- The token that a word spells where it begins. -/
def tokenAt (kind : Kind) (word : List Char) (position : Position) : Token :=
  .ofWord kind word { line := position.line, column := position.column + 1 }

@[simp] theorem lexeme_tokenAt (kind : Kind) (word : List Char) (position : Position) :
    (tokenAt kind word position).lexeme.toList = word :=
  String.toList_ofList

theorem fits_tokenAt {kind : Kind} {word after : List Char} (longest : Longest kind word after)
    (noSlash : word.head? ≠ some '/') (position : Position) :
    (Segment.token (tokenAt kind word position)).Fits position after := by
  refine ⟨?_, ?_, ?_⟩
  · rwa [lexeme_tokenAt]
  · rw [lexeme_tokenAt]
    rfl
  · rw [lexeme_tokenAt]
    intro slashes
    cases word with
    | nil => exact longest.1.ne_nil rfl
    | cons first rest =>
        obtain ⟨rfl, -⟩ := List.cons_prefix_cons.1 slashes
        exact noSlash rfl

/-- The segments of a program that prints a number. -/
def printSegments (negative : Bool) (text : List Char) : List Segment :=
  let number := Position.mk 1 (if negative then 7 else 6)
  .token (tokenAt (.keyword .print_) "print".toList .start) :: .blank ' ' ::
    (if negative then [.token (tokenAt .minus ['-'] { line := 1, column := 6 })] else []) ++
      [.token (tokenAt .number text number), .token (tokenAt .semicolon [';'] (number.past text))]

variable {text : List Char}

theorem Numeral.Positional.head (positional : Numeral.Positional text) :
    ∃ first rest, text = first :: rest ∧ first.isDigit = true := by
  obtain ⟨whole, fraction, digits, -, nonempty, -, -, rfl⟩ := positional
  obtain ⟨first, rest, rfl⟩ := List.exists_cons_of_ne_nil nonempty
  exact ⟨first, _, rfl, digits first List.mem_cons_self⟩

theorem splits_printSegments (positional : Numeral.Positional text) (negative : Bool) :
    Splits .start (printSegments negative text) [] := by
  have noSlash : text.head? ≠ some '/' := by
    obtain ⟨first, rest, rfl, isDigit⟩ := positional.head
    intro isSlash
    cases isSlash
    exact absurd isDigit (by decide)
  -- what stands behind the keyword begins with a blank, and what stands behind the number is a mark
  have letters : ∀ c ∈ "rint".toList, isWordPart c = true := List.all_eq_true.1 rfl
  have keyword : ∀ after, Longest (.keyword .print_) "print".toList (' ' :: after) := fun after =>
    .ofWord (rfl : isLetter 'p' = true) letters fun c isNext => by
      cases isNext
      rfl
  have number : Longest .number text [';'] := positional.longest ';' rfl (by decide)
  have minus : ∀ after, Longest .minus ['-'] after := fun after => .mark rfl after
  have semicolon : Longest .semicolon [';'] [] := .mark rfl []
  cases negative <;>
    simp only [printSegments, Splits, Segment.text, lexeme_tokenAt, List.flatMap_cons,
      List.flatMap_nil, List.cons_append, List.nil_append, List.append_nil, if_true,
      Bool.false_eq_true, if_false]
  · exact ⟨fits_tokenAt (keyword _) (by decide) _, rfl, fits_tokenAt number noSlash _,
      fits_tokenAt semicolon (by decide) _, trivial⟩
  · exact ⟨fits_tokenAt (keyword _) (by decide) _, rfl, fits_tokenAt (minus _) (by decide) _,
      fits_tokenAt number noSlash _, fits_tokenAt semicolon (by decide) _, trivial⟩

/-- The source is taken apart into a keyword, perhaps a sign, a number and a semicolon. -/
theorem scan_printing {source : String} {negative : Bool}
    (positional : Numeral.Positional text)
    (isSource : source.toList =
      "print ".toList ++ (if negative then ['-'] else []) ++ text ++ [';']) :
    ∃ stop, (scan source).tokens =
        (printSegments negative text).filterMap Segment.token? ++ [.eof stop] ∧
      (scan source).errors = #[] := by
  have isText : source.toList = (printSegments negative text).flatMap Segment.text := by
    rw [isSource]
    cases negative <;> simp [printSegments, Segment.text]
  have noReturn : '\r' ∉ source.toList := by
    have notInside : '\r' ∉ text := fun member =>
      absurd (positional.isMantissa _ member) (by decide)
    rw [isSource]
    cases negative <;> simp [notInside]
  obtain ⟨isTokens, isErrors⟩ := scan_of_splits ((normalize_eq_self noReturn).trans isText)
    (splits_printSegments positional negative)
  refine ⟨_, isTokens, Array.toList_eq_nil_iff.1 (isErrors.trans ?_)⟩
  cases negative <;> rfl

/-! ### Running it -/

/-- The expression that stands for a number with a sign in front of it. -/
def signedLiteral {ρ : Type} (negative : Bool) (value : Float) : Expr ρ :=
  if negative then .unary .negate { line := 1, column := 7 } (.literal (.number value))
  else .literal (.number value)

/-- The tokens are read as a statement that prints the number. -/
theorem parse_printSegments (text : List Char) (negative : Bool) (room : ℕ)
    (limit : ArgumentLimit) (stop : Position) :
    Program.parseWithin (room + 5) limit
        ((printSegments negative text).filterMap Segment.token? ++ [.eof stop]) =
      { program := .ok [.print (signedLiteral negative (numeral text))], errors := #[] } := by
  cases negative <;> rfl

theorem fits_signedLiteral (negative : Bool) (value : Float) (room : ℕ) :
    Program.fits (room + 5) [Stmt.print (signedLiteral (ρ := Unit) negative value)] = true := by
  cases negative <;> rfl

theorem bind_signedLiteral (negative : Bool) (value : Float) :
    Program.bind [.print (signedLiteral negative value)] =
      { program := [.print (signedLiteral negative value)], errors := #[] } := by
  cases negative <;> rfl

/-- Printing a number adds its text to what has been printed. -/
theorem exec_signedLiteral (negative : Bool) (value : Float) (steps room : ℕ) (machine : Machine) :
    exec (steps + 3) (room + 3) (.print (signedLiteral negative value)) machine =
      .ok .normal { machine with
        output := machine.output.push (Number.text (if negative then -value else value)) } := by
  cases negative <;> rfl

namespace Session

variable {session : Session} {room : Room}

/-- There is at least as much room to run a program as there is to read it. -/
theorem nesting_le_evaluation (available : session.room = .ok room) :
    room.nesting ≤ room.evaluation := by
  unfold Session.room at available
  split at available
  · cases available
  · cases available
  · split at available
    · cases available
    · split at available
      · cases available
      · cases available
        simp only [RecursionLimit.room]
        omega

/-- A program that prints a number that is written with all its places prints the number. -/
theorem run_printing {negative : Bool} {source : String} (available : session.room = .ok room)
    (enough : 5 ≤ room.nesting) (positional : Numeral.Positional text)
    (isSource : source.toList =
      "print ".toList ++ (if negative then ['-'] else []) ++ text ++ [';']) :
    (session.run source).2.output = session.machine.output.push
        (Number.text (if negative then -numeral text else numeral text)) ∧
      (session.run source).2.ending = .completed := by
  obtain ⟨stop, isTokens, noErrors⟩ := scan_printing positional isSource
  obtain ⟨nesting, isNesting⟩ := Nat.exists_eq_add_of_le' enough
  obtain ⟨evaluation, isEvaluation⟩ :=
    Nat.exists_eq_add_of_le' ((by omega : 3 ≤ 5).trans (enough.trans
      (nesting_le_evaluation available)))
  have accepts : Accepts session.config room source _ _ := {
    scanned := noErrors
    parsed := by
      rw [isTokens, isNesting]
      exact parse_printSegments ..
    fits := by
      rw [isNesting]
      exact fits_signedLiteral ..
    bound := bind_signedLiteral .. }
  obtain ⟨events, isRun⟩ := run_of_accepts available accepts
  have executes := exec_signedLiteral negative (numeral text) (allowance - 3) evaluation
    session.machine
  rw [← isEvaluation, show allowance - 3 + 3 = allowance by rfl] at executes
  rw [isRun]
  simp only [runBound, execProgram, executes, conclude, and_self]

end Session

/-! ### Faithful texts -/

/-- Printed numbers are faithful.  Two numbers print alike exactly if they are the same number.
What is printed for a finite number denotes the decimal that its listing denotes, which is the
shortest one that reads back as the number.  It is written with all its places if the number is
zero or between a thousandth and ten million, and with an exponent otherwise; and if it is written
with all its places, a program that prints it prints it again. -/
theorem Number.printed_faithful :
    (∀ bits other : UInt64,
      printed.writeBits bits = printed.writeBits other ↔ sameBits bits other = true) ∧
    (∀ number other : Float,
      Number.text number = Number.text other ↔
        (Value.number number : Value).same (.number other) = true) ∧
    ∀ bits : UInt64, (Fields.ofBits bits).isSpecial = false →
      let number := Binary.ofFields (.ofBits bits)
      let text := printed.writeBits bits
      Numeral.value text.toList = Numeral.value (listed.writeBits bits).toList ∧
      (number.mantissa ≠ 0 → Decimal.Shortest number (Decimal.shortest number) ∧
        |Numeral.value text.toList| = (Decimal.shortest number).value) ∧
      ∃ magnitude, text.toList =
          (if (Fields.ofBits bits).negative then ['-'] else []) ++ magnitude ∧
        (Plain number → Numeral.Positional magnitude) ∧
        (¬Plain number → Numeral.Scientific magnitude) ∧
        (Numeral.Positional magnitude → ∀ (session : Session) (room : Room),
          session.room = .ok room → 5 ≤ room.nesting →
            let outcome := (session.run ("print " ++ text ++ ";")).2
            outcome.output = session.machine.output.push text ∧ outcome.ending = .completed) := by
  refine ⟨fun bits other => Layout.writeBits_eq_iff printed_legible,
    fun number other => Layout.writeBits_eq_iff printed_legible, fun bits finite => ?_⟩
  have normal := Fields.normal (Fields.fraction_lt bits)
  have denotes := Layout.value_writeBits printed_legible finite
  have isText := toList_writeBits_finite finite
  refine ⟨denotes.trans (Layout.value_writeBits listed_legible finite).symm, fun nonzero => ?_,
    _, isText, (printed_form normal).1, (printed_form normal).2,
    fun positional session room available enough => ?_⟩
  · have spec := Decimal.shortest_spec normal nonzero
    refine ⟨spec, ?_⟩
    have positive := spec.reads.pos nonzero
    rw [denotes, Binary.shown, if_neg nonzero, abs_mul, abs_of_pos positive]
    split <;> simp
  · have isSource : ("print " ++ printed.writeBits bits ++ ";").toList = "print ".toList ++
        (if (Fields.ofBits bits).negative then ['-'] else []) ++ magnitudeText bits ++ [';'] := by
      rw [String.toList_append, String.toList_append, isText]
      simp
    have plain : Plain (.ofFields (.ofBits bits)) :=
      not_not.1 fun scientific => positional.not_scientific ((printed_form normal).2 scientific)
    have runs := Session.run_printing available enough positional isSource
    have isAgain := toBits_signed finite plain
    rw [Number.text, Layout.write, isAgain] at runs
    exact runs

/-- The double with these bits is printed as `-1234.5`, and a new session prints `-1234.5` again. -/
theorem Number.printed_faithful_sample :
    let number := Binary.ofFields (.ofBits 0xC0934A0000000000)
    Plain number ∧ Decimal.Shortest number (Decimal.shortest number) ∧
      printed.writeBits 0xC0934A0000000000 = "-1234.5" ∧
      Numeral.value "-1234.5".toList =
        Numeral.value (listed.writeBits 0xC0934A0000000000).toList ∧
      ((Session.start {} fun _ => 0).run "print -1234.5;").2.output = #["-1234.5"] := by
  intro number
  have isMantissa : number.mantissa = 5429388417957888 := by decide
  have isExponent : number.exponent = -42 := by decide
  have plain : Plain number := by
    refine .inr ?_
    rw [Binary.value, isMantissa, isExponent]
    norm_num
  have isText : printed.writeBits 0xC0934A0000000000 = "-1234.5" := by decide +kernel
  obtain ⟨denotes, shortest, magnitude, -, isPositional, -, prints⟩ :=
    Number.printed_faithful.2.2 0xC0934A0000000000 (by decide)
  have runs := prints (isPositional plain) (Session.start {} fun _ => 0) ⟨25000, 25000⟩ (by rfl)
    (by decide)
  rw [isText] at denotes runs
  exact ⟨plain, (shortest (by rw [isMantissa]; decide)).1, isText, denotes, runs.1⟩

end LoxLang
