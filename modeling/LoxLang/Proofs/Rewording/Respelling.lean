/-
Module: LoxLang.Proofs.Rewording.Respelling
Purpose: Texts in which some names are written in another way.  If in a text the name at some places
  is replaced by another name, the text is scanned as before: it has the same tokens on the same
  lines, but for the words that were replaced.
Main exports: respell, Respells, exists_respells, Splits.respell, scan_respell
-/
import LoxLang.Proofs.Rewording.Tree
import LoxLang.Proofs.Token.Following
import LoxLang.Proofs.Token.Place
import Mathlib.Data.List.Forall2
import Mathlib.Data.List.Nodup

namespace LoxLang

/-! ### Replacing words -/

/-- The characters of a text, from a place on, with other characters for the words at some places.
The words that are replaced have `length` characters, of which `left` are still to be left out. -/
def respell (places : List Position) (length : Nat) (word : List Char) :
    Nat → Position → List Char → List Char
  | _, _, [] => []
  | left + 1, position, c :: rest => respell places length word left (position.after c) rest
  | 0, position, c :: rest =>
      if position.after c ∈ places then
        word ++ respell places length word (length - 1) (position.after c) rest
      else
        c :: respell places length word 0 (position.after c) rest

/-- A text is another one in which the word `old` at some places is replaced by the word `new`, line
ends written in any way. -/
def Respells (places : List Position) (old new source other : String) : Prop :=
  normalize other.toList = respell places old.toList.length new.toList 0 .start
    (normalize source.toList)

theorem mem_respell {places : List Position} {length left : Nat} {word text : List Char}
    {position : Position} {c : Char} (member : c ∈ respell places length word left position text) :
    c ∈ word ∨ c ∈ text := by
  fun_induction respell places length word left position text with
  | case1 => cases member
  | case2 left position d rest ih => exact (ih member).imp_right (List.mem_cons_of_mem d)
  | case3 position d rest inside ih =>
      cases List.mem_append.1 member with
      | inl new => exact .inl new
      | inr later => exact (ih later).imp_right (List.mem_cons_of_mem d)
  | case4 position d rest outside ih =>
      cases List.mem_cons.1 member with
      | inl same => exact .inr (same ▸ List.mem_cons_self)
      | inr later => exact (ih later).imp_right (List.mem_cons_of_mem d)

/-- Words can be replaced by a name anywhere in a text. -/
theorem exists_respells (places : List Position) (old source : String) {new : String}
    (isName : Lexeme .identifier new.toList) : ∃ other, Respells places old new source other := by
  refine ⟨.ofList (respell places old.toList.length new.toList 0 .start
    (normalize source.toList)), ?_⟩
  rw [Respells, String.toList_ofList]
  refine normalize_eq_self fun isReturn => ?_
  cases mem_respell isReturn with
  | inl inName => exact isName.return_notMem inName
  | inr inText => exact return_notMem_normalize _ inText

/-! ### Copying and leaving out -/

section Copying

variable {places : List Position} {length : Nat} {word : List Char}

theorem respell_skip (skipped rest : List Char) (position : Position) :
    respell places length word skipped.length position (skipped ++ rest) =
      respell places length word 0 (position.past skipped) rest := by
  induction skipped generalizing position with
  | nil => rfl
  | cons c skipped ih => exact ih (position.after c)

/-- No place of a list is inside a text. -/
def Clear (places : List Position) (position : Position) (text : List Char) : Prop :=
  ∀ place ∈ places, position.Before place → (position.past text).Before place

theorem respell_copy {copied : List Char} (rest : List Char) {position : Position}
    (clear : Clear places position copied) :
    respell places length word 0 position (copied ++ rest) =
      copied ++ respell places length word 0 (position.past copied) rest := by
  induction copied generalizing position with
  | nil => rfl
  | cons c copied ih =>
      have outside : position.after c ∉ places := fun inside =>
        (position.after c).not_past_before copied (clear _ inside (position.before_after c))
      have onwards : Clear places (position.after c) copied := fun place member before =>
        clear place member ((position.before_after c).trans before)
      rw [List.cons_append, respell, if_neg outside, ih onwards]
      rfl

end Copying

/-! ### The segments of a text with other words -/

section Segments

variable {places : List Position} {word : List Char} {position : Position}
  {segments : List Segment}

/-- The characters of a segment with another word in its place. -/
def Segment.respelled (places : List Position) (word : List Char) : Segment → List Char
  | token found => if found.position ∈ places then word else found.lexeme.toList
  | segment => segment.text

/-- The places at which names are replaced are those of tokens. -/
theorem Splits.respell_text {length : Nat} (splits : Splits position segments [])
    (only : ∀ place ∈ places, position.Before place →
      ∃ token ∈ segments.filterMap Segment.token?, token.position = place)
    (long : ∀ token ∈ segments.filterMap Segment.token?, token.position ∈ places →
      token.lexeme.toList.length = length) :
    LoxLang.respell places length word 0 position (segments.flatMap Segment.text) =
      segments.flatMap (Segment.respelled places word) := by
  induction segments generalizing position with
  | nil => rfl
  | cons segment rest ih =>
      have onwards := position.before_past splits.1.text_ne_nil
      have onlyLater : ∀ place ∈ places, (position.past segment.text).Before place →
          ∃ token ∈ rest.filterMap Segment.token?, token.position = place := by
        intro place member behind
        obtain ⟨token, isToken, rfl⟩ := only place member (onwards.trans behind)
        cases segment with
        | token found =>
            cases List.mem_cons.1 isToken with
            | inl isFound =>
                subst isFound
                obtain ⟨c, tail, isText, isPlace⟩ := token_place splits.1
                rw [Segment.text, isText, Position.past_cons, isPlace] at behind
                exact absurd behind ((position.after c).not_past_before tail)
            | inr later => exact ⟨token, later, rfl⟩
        | _ => exact ⟨token, isToken, rfl⟩
      have longLater : ∀ token ∈ rest.filterMap Segment.token?, token.position ∈ places →
          token.lexeme.toList.length = length := by
        intro token member
        refine long token ?_
        cases segment with
        | token found => exact List.mem_cons_of_mem _ member
        | _ => exact member
      have remaining := ih splits.2 onlyLater longLater
      rw [List.flatMap_cons, List.flatMap_cons]
      by_cases replaced : ∃ found, segment = .token found ∧ found.position ∈ places
      · obtain ⟨found, rfl, inside⟩ := replaced
        obtain ⟨c, tail, isText, isPlace⟩ := token_place splits.1
        have isLong := long found List.mem_cons_self inside
        rw [isText] at isLong
        rw [List.length_cons] at isLong
        rw [isPlace] at inside
        rw [Segment.text, isText, Position.past_cons] at remaining
        rw [Segment.text, isText, List.cons_append, LoxLang.respell, if_pos inside,
          Segment.respelled, isPlace, if_pos inside, ← isLong, Nat.add_sub_cancel, isLong,
          respell_skip, remaining]
      · have clear : Clear places position segment.text := by
          intro place member before
          obtain ⟨token, isToken, rfl⟩ := only place member before
          cases segment with
          | token found =>
              cases List.mem_cons.1 isToken with
              | inl isFound => exact absurd ⟨found, rfl, isFound ▸ member⟩ replaced
              | inr later => exact splits.2.token_before later
          | _ => exact splits.2.token_before isToken
        have kept : segment.respelled places word = segment.text := by
          cases segment with
          | token found => exact if_neg fun inside => replaced ⟨found, rfl, inside⟩
          | _ => rfl
        rw [respell_copy _ clear, remaining, kept]

/-- All tokens at some places are names. -/
def NamesOnly (places : List Position) (segments : List Segment) : Prop :=
  ∀ token ∈ segments.filterMap Segment.token?, token.position ∈ places → token.kind = .identifier

theorem NamesOnly.tail {segment : Segment} (names : NamesOnly places (segment :: segments)) :
    NamesOnly places segments := by
  intro token member
  refine names token ?_
  cases segment with
  | token found => exact List.mem_cons_of_mem _ member
  | _ => exact member

/-- A segment is kept, or it is a name that is replaced. -/
theorem Segment.respelled_cases {segment : Segment} {after : List Char}
    (fits : segment.Fits position after) (names : NamesOnly places (segment :: segments)) :
    segment.respelled places word = segment.text ∨
      segment.respelled places word = word ∧ Lexeme .identifier segment.text := by
  cases segment with
  | token found =>
      by_cases inside : found.position ∈ places
      · have isName := names found List.mem_cons_self inside
        exact .inr ⟨if_pos inside, isName ▸ fits.1.1⟩
      · exact .inl (if_neg inside)
  | _ => exact .inl rfl

theorem Splits.respelled_begins (splits : Splits position segments [])
    (names : NamesOnly places segments) (isName : Lexeme .identifier word) :
    BeginsLike (segments.flatMap Segment.text)
      (segments.flatMap (Segment.respelled places word)) := by
  cases segments with
  | nil => exact .nil _
  | cons segment rest =>
      rw [List.flatMap_cons, List.flatMap_cons]
      rcases Segment.respelled_cases splits.1 names with kept | ⟨replaced, wasName⟩
      · obtain ⟨c, tail, isText⟩ := List.exists_cons_of_ne_nil splits.1.text_ne_nil
        rw [kept, isText]
        exact .cons c _ _
      · obtain ⟨c, tail, isText, letter, -⟩ := wasName.of_identifier
        obtain ⟨d, others, isWord, letterToo, -⟩ := isName.of_identifier
        rw [replaced, isText, isWord]
        intro e isNext
        cases isNext
        exact ⟨c, rfl, .inr ⟨letter, letterToo⟩⟩

/-- To the words in front of a text it makes no difference which names stand in it. -/
theorem Splits.respelled_follows (splits : Splits position segments [])
    (names : NamesOnly places segments) (isName : Lexeme .identifier word) :
    FollowsLike (segments.flatMap Segment.text)
      (segments.flatMap (Segment.respelled places word)) where
  begins := splits.respelled_begins names isName
  point := by
    cases segments with
    | nil => exact fun rest impossible => nomatch impossible
    | cons segment others =>
        intro rest isPoint
        rw [List.flatMap_cons] at isPoint ⊢
        rcases Segment.respelled_cases splits.1 names with kept | ⟨replaced, -⟩
        · obtain ⟨c, tail, isText⟩ := List.exists_cons_of_ne_nil splits.1.text_ne_nil
          rw [kept, isText] at isPoint
          obtain ⟨rfl, rfl⟩ := List.cons.inj isPoint
          refine ⟨tail ++ others.flatMap Segment.text, by rw [isText]; rfl, ?_⟩
          cases tail with
          | nil => exact splits.2.respelled_begins names.tail isName
          | cons d tail => exact .cons d _ _
        · obtain ⟨c, tail, isWord, letter, -⟩ := isName.of_identifier
          rw [replaced, isWord] at isPoint
          rw [(List.cons.inj isPoint).1] at letter
          exact absurd letter (by decide)

/-- A segment at a place of the new text, with another word in its place. -/
def Segment.respell (places : List Position) (word : List Char) (position : Position) :
    Segment → Segment
  | token found =>
      token (.ofWord found.kind (if found.position ∈ places then word else found.lexeme.toList)
        { line := position.line, column := position.column + 1 })
  | segment => segment

@[simp] theorem Segment.text_respell (segment : Segment) :
    (segment.respell places word position).text = segment.respelled places word := by
  cases segment with
  | token found => simp only [respell, text, Token.ofWord, String.toList_ofList, respelled]
  | _ => rfl

theorem Segment.error?_respell {segment : Segment} (faultless : segment.error? = none) :
    (segment.respell places word position).error? = none := by
  cases segment with
  | token found => rfl
  | _ => exact faultless

/-- A segment fits into the new text if it fits into the old one, on the same line. -/
theorem Segment.Fits.respell {segment : Segment} {after following : List Char}
    {place : Position} (fits : segment.Fits position after) (faultless : segment.error? = none)
    (names : NamesOnly places (segment :: segments)) (isName : Lexeme .identifier word)
    (follows : FollowsLike after following) :
    (segment.respell places word place).Fits place following := by
  -- a character that is no letter begins the new text only if it begins the old one
  have begins : ∀ c ∈ following.head?, isLetter c = false → c ∈ after.head? := by
    intro c isNext noLetter
    obtain ⟨d, isFirst, rfl | ⟨-, letter⟩⟩ := follows.begins c isNext
    · exact isFirst
    · rw [noLetter] at letter
      cases letter
  cases segment with
  | blank c => exact fits
  | comment characters =>
      refine ⟨fits.1, fun c isNext => ?_⟩
      obtain ⟨d, isFirst, rfl | ⟨letter, -⟩⟩ := follows.begins c isNext
      · exact fits.2 d isFirst
      · rw [fits.2 d isFirst] at letter
        exact absurd letter (by decide)
  | token found =>
      obtain ⟨longest, isWord, noComment⟩ := fits
      have longestToo := longest.followsLike follows
      by_cases inside : found.position ∈ places
      · have wasName := names found List.mem_cons_self inside
        rw [wasName] at longestToo
        obtain ⟨c, tail, isText, letter, -⟩ := longestToo.1.of_identifier
        obtain ⟨d, others, rfl, letterToo, parts, sameKind⟩ := isName.of_identifier
        rw [isText] at longestToo
        simp only [Segment.respell, if_pos inside, wasName]
        refine ⟨?_, by simp [Token.ofWord], ?_⟩
        · simp only [Token.ofWord, String.toList_ofList]
          have stays := Longest.ofWord letterToo parts (longestToo.word_stops letter)
          rwa [sameKind] at stays
        · simp only [Token.ofWord, String.toList_ofList]
          intro slashes
          rw [← (List.cons_prefix_cons.1 slashes).1] at letterToo
          exact absurd letterToo (by decide)
      · simp only [Segment.respell, if_neg inside]
        refine ⟨?_, by simp [Token.ofWord], ?_⟩
        · simpa [Token.ofWord] using longestToo
        · simp only [Token.ofWord, String.toList_ofList]
          intro slashes
          obtain ⟨c, tail, isText⟩ := List.exists_cons_of_ne_nil longest.1.ne_nil
          rw [isText] at slashes noComment
          obtain ⟨rfl, second⟩ := List.cons_prefix_cons.1 slashes
          refine noComment (List.cons_prefix_cons.2 ⟨rfl, ?_⟩)
          cases tail with
          | cons d tail =>
              exact List.cons_prefix_cons.2
                ⟨(List.cons_prefix_cons.1 second).1, List.nil_prefix⟩
          | nil =>
              obtain ⟨rest, rfl⟩ := second
              have isNext := begins '/' rfl (by decide)
              obtain ⟨others, rfl⟩ := List.head?_eq_some_iff.1 isNext
              exact ⟨others, rfl⟩
  | unexpected c line => cases faultless
  | unterminated characters line => cases faultless

/-- The segments of the new text, from a place on. -/
def respellFrom (places : List Position) (word : List Char) :
    Position → List Segment → List Segment
  | _, [] => []
  | position, segment :: rest =>
      segment.respell places word position ::
        respellFrom places word (position.past (segment.respelled places word)) rest

theorem respellFrom_text (place : Position) :
    (respellFrom places word place segments).flatMap Segment.text =
      segments.flatMap (Segment.respelled places word) := by
  induction segments generalizing place with
  | nil => rfl
  | cons segment rest ih =>
      simp only [respellFrom, List.flatMap_cons, Segment.text_respell, ih]

theorem respellFrom_faultless (faultless : Faultless segments) (place : Position) :
    Faultless (respellFrom places word place segments) := by
  induction segments generalizing place with
  | nil => exact faultless
  | cons segment rest ih =>
      obtain ⟨here, others⟩ := List.forall_mem_cons.1 faultless
      exact List.forall_mem_cons.2 ⟨Segment.error?_respell here, ih others _⟩

/-- The new text is taken apart as the old one is. -/
theorem Splits.respell (splits : Splits position segments []) (faultless : Faultless segments)
    (names : NamesOnly places segments) (isName : Lexeme .identifier word) (place : Position) :
    Splits place (respellFrom places word place segments) [] := by
  induction segments generalizing position place with
  | nil => trivial
  | cons segment rest ih =>
      obtain ⟨here, others⟩ := List.forall_mem_cons.1 faultless
      refine ⟨?_, ?_⟩
      · have fits := splits.1
        rw [List.append_nil] at fits ⊢
        rw [respellFrom_text]
        exact fits.respell here names isName (splits.2.respelled_follows names.tail isName)
      · rw [Segment.text_respell]
        exact ih splits.2 others names.tail _

/-- Names have no line ends, so no line ends are lost or added. -/
theorem Segment.count_respelled {segment : Segment} {after : List Char}
    (fits : segment.Fits position after) (names : NamesOnly places (segment :: segments))
    (isName : Lexeme .identifier word) :
    (segment.respelled places word).count '\n' = segment.text.count '\n' := by
  rcases Segment.respelled_cases fits names with kept | ⟨replaced, wasName⟩
  · rw [kept]
  · rw [replaced, List.count_eq_zero_of_not_mem isName.identifier_inLine,
      List.count_eq_zero_of_not_mem wasName.identifier_inLine]

/-- A token on the same line, with another word if it stands at one of some places. -/
structure Token.Respelled (places : List Position) (new : String) (token twin : Token) : Prop where
  kind : twin.kind = token.kind
  lexeme : twin.lexeme = if token.position ∈ places then new else token.lexeme
  literal : twin.literal = token.literal
  line : twin.position.line = token.position.line

theorem Segment.Fits.respelled {found : Token} {after : List Char} {place : Position}
    (fits : (Segment.token found).Fits position after)
    (names : NamesOnly places (.token found :: segments)) (sameLine : place.line = position.line) :
    found.Respelled places (.ofList word)
      (.ofWord found.kind (if found.position ∈ places then word else found.lexeme.toList)
        { line := place.line, column := place.column + 1 }) where
  kind := rfl
  lexeme := by
    by_cases inside : found.position ∈ places
    · simp only [Token.ofWord, if_pos inside]
    · simp only [Token.ofWord, if_neg inside, String.ofList_toList]
  literal := by
    by_cases inside : found.position ∈ places
    · have isName := names found List.mem_cons_self inside
      rw [fits.2.1, isName]
      simp only [Token.ofWord, literalOf]
    · rw [if_neg inside]
      exact (congrArg Token.literal fits.2.1).symm
  line := by
    rw [fits.2.1]
    exact sameLine

/-- The tokens of the new text stand on the lines of those of the old text. -/
theorem Splits.respell_tokens (splits : Splits position segments [])
    (names : NamesOnly places segments) (isName : Lexeme .identifier word) {place : Position}
    (sameLine : place.line = position.line) :
    List.Forall₂ (Token.Respelled places (.ofList word)) (segments.filterMap Segment.token?)
      ((respellFrom places word place segments).filterMap Segment.token?) := by
  induction segments generalizing position place with
  | nil => exact .nil
  | cons segment rest ih =>
      have onwards : (place.past (segment.respelled places word)).line =
          (position.past segment.text).line := by
        rw [Position.line_past, Position.line_past, sameLine,
          Segment.count_respelled splits.1 names isName]
      have others := ih splits.2 names.tail onwards
      cases segment with
      | token found => exact .cons (splits.1.respelled names sameLine) others
      | _ => exact others

end Segments

/-! ### The rewording of a text -/

/-- Names at some places become a word, and places move. -/
def Rewording.respelling (places : List Position) (new : String) (move : Position → Position) :
    Rewording where
  word := fun name => if name.position ∈ places then new else name.text
  move := move

/-- Tokens at different places are moved to any places on their lines. -/
theorem exists_move {places : List Position} {new : String} {tokens twins : List Token}
    (respelled : List.Forall₂ (Token.Respelled places new) tokens twins)
    (different : (tokens.map Token.position).Nodup)
    (names : ∀ token ∈ tokens, token.position ∈ places → token.kind = .identifier) :
    ∃ move : Position → Position, (∀ position, (move position).line = position.line) ∧
      twins = tokens.map (Token.reword (.respelling places new move)) := by
  induction respelled with
  | nil => exact ⟨id, fun _ => rfl, rfl⟩
  | @cons token twin tokens twins first rest ih =>
      rw [List.map_cons, List.nodup_cons] at different
      rw [List.forall_mem_cons] at names
      obtain ⟨move, sameLine, isMap⟩ := ih different.2 names.2
      refine ⟨Function.update move token.position twin.position, ?_, ?_⟩
      · intro position
        by_cases here : position = token.position
        · subst here
          rw [Function.update_self]
          exact first.line
        · rw [Function.update_of_ne here]
          exact sameLine position
      · rw [List.map_cons]
        congr 1
        · rcases twin with ⟨kind, lexeme, literal, position⟩
          obtain ⟨isKind, isLexeme, isLiteral, -⟩ := first
          simp only at isKind isLexeme isLiteral
          subst isKind isLexeme isLiteral
          simp only [Token.reword, Rewording.respelling, Function.update_self, Token.mk.injEq,
            true_and, and_true]
          by_cases inside : token.position ∈ places
          · rw [if_pos (names.1 inside)]
          · rw [if_neg inside, ite_self]
        · rw [isMap]
          refine List.map_congr_left fun other member => ?_
          have elsewhere : other.position ≠ token.position := fun same =>
            different.1 (same ▸ List.mem_map_of_mem member)
          simp only [Token.reword, Rewording.respelling, Function.update_of_ne elsewhere]

/-- A text without errors in which names at some places are replaced is scanned without errors, and
but for the end its tokens are those of the old text, with the new name at these places. -/
theorem scan_respell {places : List Position} {old new source other : String}
    (isName : Lexeme .identifier new.toList) (respells : Respells places old new source other)
    (clean : (scan source).errors = #[])
    (named : ∀ place ∈ places, ∃ token ∈ (scan source).tokens,
      token.position = place ∧ token.kind = .identifier ∧ token.lexeme = old) :
    ∃ move body last end_, (∀ position, (move position).line = position.line) ∧
      (scan source).tokens = body ++ [last] ∧
      scan other =
        { tokens := body.map (Token.reword (.respelling places new move)) ++ [end_]
          errors := #[] } := by
  obtain ⟨segments, isText, splits, isTokens, isErrors⟩ := scan_segments source
  have faultless : Faultless segments := faultless_of_errors (by rw [← isErrors, clean])
  have different := splits.positions_nodup
  have namedToo : ∀ place ∈ places, ∃ token ∈ segments.filterMap Segment.token?,
      token.position = place ∧ token.kind = .identifier ∧ token.lexeme = old := by
    intro place member
    obtain ⟨token, isToken, isPlace, isIdentifier, isOld⟩ := named place member
    rw [isTokens, List.mem_append, List.mem_singleton] at isToken
    rcases isToken with inside | rfl
    · exact ⟨token, inside, isPlace, isIdentifier, isOld⟩
    · cases isIdentifier
  have spelled : ∀ token ∈ segments.filterMap Segment.token?, token.position ∈ places →
      token.kind = .identifier ∧ token.lexeme = old := by
    intro token member inside
    obtain ⟨found, isFound, isPlace, isIdentifier, isOld⟩ := namedToo _ inside
    have same := List.inj_on_of_nodup_map different isFound member isPlace
    exact same ▸ ⟨isIdentifier, isOld⟩
  have names : NamesOnly places segments := fun token member inside =>
    (spelled token member inside).1
  have isOther : normalize other.toList =
      (respellFrom places new.toList .start segments).flatMap Segment.text := by
    rw [respellFrom_text, respells, isText]
    refine splits.respell_text (fun place member _ => ?_) fun token member inside => ?_
    · obtain ⟨token, isToken, isPlace, -⟩ := namedToo place member
      exact ⟨token, isToken, isPlace⟩
    · rw [(spelled token member inside).2]
  have splitsOther := splits.respell faultless names isName .start
  obtain ⟨isTokensOther, isErrorsOther⟩ := scan_of_splits isOther splitsOther
  have respelled : List.Forall₂ (Token.Respelled places (.ofList new.toList))
      (segments.filterMap Segment.token?)
      ((respellFrom places new.toList .start segments).filterMap Segment.token?) :=
    splits.respell_tokens names isName rfl
  rw [String.ofList_toList] at respelled
  obtain ⟨move, sameLine, isMap⟩ := exists_move respelled different names
  refine ⟨move, _, _, .eof (Position.start.past (normalize other.toList)), sameLine, isTokens, ?_⟩
  rw [← isMap, ← isTokensOther]
  have noErrors : (scan other).errors = #[] := by
    rw [← Array.toList_eq_nil_iff, isErrorsOther, List.filterMap_eq_nil_iff]
    exact respellFrom_faultless faultless .start
  rw [← noErrors]

end LoxLang
