/-
Module: LoxLang.Proofs.Token.Rendering
Purpose: Tokens written out with single spaces between them are scanned into the same tokens again.
  A space makes no word longer and is part of no comment, so each token is the longest word at its
  place whatever its neighbours are.
Main exports: Token.Valid, render, Lexeme.longest_before_blank, scan_render
-/
import LoxLang.Proofs.Token.Scanning

namespace LoxLang

/-! ### Tokens that a text can have -/

/-- Whether a token is spelled by its lexeme and carries the value of it.  A carriage return in a
string would be read as a newline. -/
structure Token.Valid (token : Token) : Prop where
  lexeme : Lexeme token.kind token.lexeme.toList
  literal : token.literal = literalOf token.kind token.lexeme.toList
  noReturn : '\r' ∉ token.lexeme.toList

/-- The token that a word spells is valid. -/
theorem Token.Valid.ofWord {kind : Kind} {word : List Char} {position : Position}
    (lexeme : Lexeme kind word) (noReturn : '\r' ∉ word) :
    (Token.ofWord kind word position).Valid where
  lexeme := by simpa [Token.ofWord] using lexeme
  literal := by simp [Token.ofWord]
  noReturn := by simpa [Token.ofWord] using noReturn

/-- The lexemes of tokens with single spaces between them. -/
def render (tokens : List Token) : String :=
  " ".intercalate (tokens.map Token.lexeme)

@[simp] theorem render_nil : (render []).toList = [] := rfl

@[simp] theorem render_singleton (token : Token) :
    (render [token]).toList = token.lexeme.toList := by
  simp [render]

@[simp] theorem render_cons_cons (token next : Token) (rest : List Token) :
    (render (token :: next :: rest)).toList =
      token.lexeme.toList ++ ' ' :: (render (next :: rest)).toList := by
  simp [render]

/-! ### Words before blanks -/

namespace Lexeme

variable {kind : Kind} {word after : List Char}

/-- A blank makes no word longer. -/
theorem longest_before_blank (lexeme : Lexeme kind word)
    (stops : ∀ c ∈ after.head?, Cursor.isBlank c = true) : Longest kind word after := by
  have plain := fun c isNext => Cursor.isBlank_plain (stops c isNext)
  cases lexeme with
  | word letter parts =>
      exact .ofWord letter parts fun c isNext => by simp [isWordPart, plain c isNext]
  | whole digit digits =>
      refine .whole digit digits (fun c isNext => (plain c isNext).2.1) ?_
      rintro c more rfl
      exact absurd (stops '.' rfl) (by decide)
  | fraction digit digits nextDigit moreDigits =>
      exact .fraction digit digits nextDigit moreDigits fun c isNext => (plain c isNext).2.1
  | string inside => exact .string inside after
  | mark isMark => exact .mark isMark after
  | alone isComparison =>
      refine .alone isComparison ?_
      rintro c isNext rfl
      exact absurd (stops '=' isNext) (by decide)
  | withEqual isComparison => exact .withEqual isComparison after

/-- Before a blank a slash starts no comment. -/
theorem no_comment_before_blank (lexeme : Lexeme kind word)
    (stops : ∀ c ∈ after.head?, Cursor.isBlank c = true) : ¬['/', '/'] <+: word ++ after := by
  intro slashes
  cases word with
  | nil => exact lexeme.ne_nil rfl
  | cons first rest =>
      obtain ⟨rfl, next⟩ := List.cons_prefix_cons.1 slashes
      obtain ⟨-, rfl⟩ := lexeme.of_mark rfl
      obtain ⟨others, rfl⟩ : ['/'] <+: after := next
      exact absurd (stops '/' rfl) (by decide)

end Lexeme

/-! ### Tokens with spaces between them -/

/-- A token at the place where its text begins. -/
def Token.placed (token : Token) (position : Position) : Token :=
  { token with position := { line := position.line, column := position.column + 1 } }

/-- A valid token is a segment of a text where a blank follows it, or nothing. -/
theorem Token.Valid.fits {token : Token} (valid : token.Valid) {position : Position}
    {after : List Char} (stops : ∀ c ∈ after.head?, Cursor.isBlank c = true) :
    (Segment.token (token.placed position)).Fits position after := by
  refine ⟨valid.lexeme.longest_before_blank stops, ?_, valid.lexeme.no_comment_before_blank stops⟩
  simp [Token.ofWord, Token.placed, valid.literal]

/-- Blanks are segments of a text wherever they stand. -/
theorem splits_blanks {blanks : List Char} (blank : ∀ c ∈ blanks, Cursor.isBlank c = true)
    (position : Position) : Splits position (blanks.map .blank) [] := by
  induction blanks generalizing position with
  | nil => trivial
  | cons c blanks ih =>
      obtain ⟨isBlank, areBlank⟩ := List.forall_mem_cons.1 blank
      exact ⟨isBlank, ih areBlank _⟩

/-- The segments of tokens with single spaces between them, and of some blanks behind them. -/
def spaced (blanks : List Char) : Position → List Token → List Segment
  | _, [] => blanks.map .blank
  | position, [token] => .token (token.placed position) :: blanks.map .blank
  | position, token :: next :: rest =>
      .token (token.placed position) :: .blank ' ' ::
        spaced blanks ((position.past token.lexeme.toList).after ' ') (next :: rest)

section

variable (blanks : List Char) (position : Position) (tokens : List Token)

theorem spaced_text :
    (spaced blanks position tokens).flatMap Segment.text = (render tokens).toList ++ blanks := by
  have blanksText : (blanks.map Segment.blank).flatMap Segment.text = blanks := by
    simp [List.flatMap_map, Segment.text]
  fun_induction spaced blanks position tokens with
  | case1 position => simpa using blanksText
  | case2 position token => simp [Segment.text, Token.placed, blanksText]
  | case3 position token next rest ih => simpa [Segment.text, Token.placed] using ih

theorem spaced_content :
    ((spaced blanks position tokens).filterMap Segment.token?).map Token.content =
      tokens.map Token.content := by
  fun_induction spaced blanks position tokens with
  | case1 position => simp [Segment.token?]
  | case2 position token => simp [Segment.token?, Token.placed, Token.content]
  | case3 position token next rest ih => exact congrArg (token.content :: ·) ih

theorem spaced_faultless : (spaced blanks position tokens).filterMap Segment.error? = [] := by
  fun_induction spaced blanks position tokens with
  | case1 position => simp [Segment.error?]
  | case2 position token => simp [Segment.error?]
  | case3 position token next rest ih => exact ih

end

/-- Valid tokens with single spaces between them are segments that fit. -/
theorem spaced_splits {blanks : List Char} {tokens : List Token}
    (blank : ∀ c ∈ blanks, Cursor.isBlank c = true) (valid : ∀ token ∈ tokens, token.Valid)
    (position : Position) : Splits position (spaced blanks position tokens) [] := by
  fun_induction spaced blanks position tokens with
  | case1 position => exact splits_blanks blank position
  | case2 position token =>
      refine ⟨(valid token List.mem_cons_self).fits fun c isNext => ?_, splits_blanks blank _⟩
      have behind : (blanks.map Segment.blank).flatMap Segment.text ++ [] = blanks := by
        simp [List.flatMap_map, Segment.text]
      rw [behind] at isNext
      exact blank c (List.mem_of_mem_head? isNext)
  | case3 position token next rest ih =>
      obtain ⟨first, others⟩ := List.forall_mem_cons.1 valid
      refine ⟨first.fits fun c isNext => ?_, rfl, ih others⟩
      cases isNext
      rfl

/-- What is written for valid tokens has no carriage return in it. -/
theorem return_notMem_render : ∀ tokens : List Token, (∀ token ∈ tokens, token.Valid) →
    '\r' ∉ (render tokens).toList
  | [], _ => by simp
  | [token], valid => by simpa using (valid token List.mem_cons_self).noReturn
  | token :: next :: rest, valid => by
      obtain ⟨first, others⟩ := List.forall_mem_cons.1 valid
      simpa [first.noReturn] using return_notMem_render (next :: rest) others

/-- Valid tokens written out with single spaces between them, and with spaces behind them, are
scanned into the same tokens again, apart from their places. -/
theorem scan_spaced {source : String} {blanks : List Char} {tokens : List Token}
    (valid : ∀ token ∈ tokens, token.Valid) (blank : ∀ c ∈ blanks, c = ' ')
    (isText : source.toList = (render tokens).toList ++ blanks) :
    (scan source).tokens.map Token.content = tokens.map Token.content ++ [(.eof, "", none)] ∧
      (scan source).errors = #[] := by
  have noReturn : '\r' ∉ source.toList := by
    rw [isText, List.mem_append, not_or]
    exact ⟨return_notMem_render tokens valid, fun isBlank => absurd (blank _ isBlank) (by decide)⟩
  have splits : Splits .start (spaced blanks .start tokens) [] :=
    spaced_splits (fun c member => blank c member ▸ rfl) valid .start
  have isSpaced : normalize source.toList = (spaced blanks .start tokens).flatMap Segment.text := by
    rw [normalize_eq_self noReturn, isText, spaced_text]
  obtain ⟨isTokens, isErrors⟩ := scan_of_splits isSpaced splits
  rw [isTokens, List.map_append, spaced_content]
  refine ⟨rfl, ?_⟩
  rw [← Array.toList_eq_nil_iff, isErrors, spaced_faultless]

/-! ### Tokens of any text -/

/-- The tokens of a text without carriage returns are valid. -/
theorem Splits.valid {position : Position} {segments : List Segment} {after : List Char}
    (splits : Splits position segments after)
    (noReturn : '\r' ∉ segments.flatMap Segment.text) :
    ∀ token ∈ segments.filterMap Segment.token?, token.Valid := by
  intro token member
  obtain ⟨earlier, later, rfl, fits⟩ := splits.token_fits member
  refine ⟨fits.1.1, ?_, ?_⟩
  · exact (congrArg Token.literal fits.2.1 :)
  · exact fun isReturn => noReturn (by simp [Segment.text, isReturn])

/-- The lexeme of the token for the end is empty, so nothing but a space is written for it. -/
theorem render_eof (position : Position) : ∀ tokens : List Token,
    ∃ blanks : List Char, (∀ c ∈ blanks, c = ' ') ∧
      (render (tokens ++ [.eof position])).toList = (render tokens).toList ++ blanks
  | [] => ⟨[], nofun, by simp [Token.eof]⟩
  | [token] => ⟨[' '], by simp, by simp [Token.eof]⟩
  | token :: next :: rest => by
      obtain ⟨blanks, areSpaces, isText⟩ := render_eof position (next :: rest)
      exact ⟨blanks, areSpaces, by simpa using isText⟩

/-- Valid tokens written out with single spaces between them are scanned into the same tokens again,
apart from their places, without errors.  The tokens of a text are valid, so scanning what is
written for them, with or without the one for the end, yields what scanning the text does. -/
theorem scan_render :
    (∀ tokens : List Token, (∀ token ∈ tokens, token.Valid) →
      (scan (render tokens)).tokens.map Token.content =
          tokens.map Token.content ++ [(.eof, "", none)] ∧
        (scan (render tokens)).errors = #[]) ∧
    ∀ source : String, ∃ body end_, (scan source).tokens = body ++ [end_] ∧
      (∀ token ∈ body, token.Valid) ∧
      ∀ text ∈ [render body, render (body ++ [end_])],
        (scan text).tokens.map Token.content = (scan source).tokens.map Token.content ∧
          (scan text).errors = #[] := by
  have again : ∀ tokens : List Token, (∀ token ∈ tokens, token.Valid) →
      (scan (render tokens)).tokens.map Token.content =
          tokens.map Token.content ++ [(.eof, "", none)] ∧
        (scan (render tokens)).errors = #[] := fun tokens valid =>
    scan_spaced valid (List.forall_mem_nil (· = ' ')) (List.append_nil _).symm
  refine ⟨again, fun source => ?_⟩
  obtain ⟨segments, isText, splits, isTokens, -⟩ := scan_segments source
  have valid := splits.valid (isText ▸ return_notMem_normalize _)
  refine ⟨_, _, isTokens, valid, ?_⟩
  rw [isTokens, List.map_append]
  intro text isRendered
  simp only [List.mem_cons, List.not_mem_nil, or_false] at isRendered
  rcases isRendered with rfl | rfl
  · exact again _ valid
  · obtain ⟨blanks, areSpaces, isRendered⟩ := render_eof _ (segments.filterMap Segment.token?)
    exact scan_spaced valid areSpaces isRendered

/-- Two slashes, two equals signs, a point between digits, a number and a word, and a string that
goes over the end of a line and has two slashes in it. -/
def sampleNeighbours : List Token :=
  [.ofWord .slash ['/'] .start, .ofWord .slash ['/'] .start, .ofWord .equal ['='] .start,
    .ofWord .equal ['='] .start, .ofWord .number ['1'] .start, .ofWord .dot ['.'] .start,
    .ofWord .number ['2', '.', '5'] .start, .ofWord .identifier ['e', '1'] .start,
    .ofWord (.keyword .or_) ['o', 'r'] .start,
    .ofWord .string ['"', '\n', '/', '/', '"'] .start]

/-- No neighbour makes a token longer or hides it. -/
theorem scan_render_sampleNeighbours :
    (∀ token ∈ sampleNeighbours, token.Valid) ∧
      render sampleNeighbours = "/ / = = 1 . 2.5 e1 or \"\n//\"" ∧
      (scan "/ / = = 1 . 2.5 e1 or \"\n//\"").tokens.map Token.content =
        sampleNeighbours.map Token.content ++ [(.eof, "", none)] ∧
      (scan "/ / = = 1 . 2.5 e1 or \"\n//\"").errors = #[] := by
  have one : Lexeme .number ['1'] := .whole rfl (List.forall_mem_nil _)
  have fraction : Lexeme .number ['2', '.', '5'] :=
    .fraction rfl (List.forall_mem_nil _) rfl (List.forall_mem_nil _)
  have name : Lexeme (.ofWord (.ofList ['e', '1'])) ['e', '1'] :=
    .word rfl (List.forall_mem_singleton.2 rfl)
  have or : Lexeme (.ofWord (.ofList ['o', 'r'])) ['o', 'r'] :=
    .word rfl (List.forall_mem_singleton.2 rfl)
  have inside : '"' ∉ ['\n', '/', '/'] := by decide
  have valid : ∀ token ∈ sampleNeighbours, token.Valid := by
    simp only [sampleNeighbours, List.forall_mem_cons]
    exact ⟨.ofWord (.mark rfl) (by decide), .ofWord (.mark rfl) (by decide),
      .ofWord (.alone rfl) (by decide), .ofWord (.alone rfl) (by decide),
      .ofWord one (by decide), .ofWord (.mark rfl) (by decide), .ofWord fraction (by decide),
      .ofWord name (by decide), .ofWord or (by decide), .ofWord (.string inside) (by decide),
      List.forall_mem_nil _⟩
  have isText : render sampleNeighbours = "/ / = = 1 . 2.5 e1 or \"\n//\"" := by
    decide
  refine ⟨valid, isText, ?_⟩
  rw [← isText]
  exact scan_render.1 sampleNeighbours valid

end LoxLang
