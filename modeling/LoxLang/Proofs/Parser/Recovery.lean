/-
Module: LoxLang.Proofs.Parser.Recovery
Purpose: However malformed a token list is, reading it comes to the end of the list, every
  declaration takes it further, and the errors that stop declarations are found one after the other
  on the way.
Main exports: Stream.Reports.ordered, Token.numbered, Program.parseWithin_eq_parse,
  Program.parse_forward
-/
import LoxLang.Proofs.Depth.Parsing
import LoxLang.Proofs.Parser.Progress
import LoxLang.Proofs.Rewording.Parsing

namespace LoxLang

/-! ### Errors in order -/

/-- If the tokens are numbered in order, so are the tokens at which fatal errors are found, and all
of them are passed by then; only the last token is never passed. -/
theorem Stream.Reports.ordered {tokens rest : List Token} {errors : List SyntaxError}
    {number : Token → Nat} (reports : Reports tokens errors rest) (ends : EndsOnce tokens)
    (numbered : tokens.Pairwise (number · < number ·)) :
    errors.Pairwise (fun first second => number first.token < number second.token ∨
        first.token = second.token ∧ second.token.kind = .eof) ∧
      ∀ error ∈ errors, error.token ∈ tokens ∧ ∀ token ∈ rest,
        number error.token < number token ∨ error.token = token ∧ token.kind = .eof := by
  induction reports with
  | pass _ _ => exact ⟨.nil, fun _ member => nomatch member⟩
  | @recover stream error here =>
      refine ⟨List.pairwise_singleton .., fun other member => ?_⟩
      cases List.mem_singleton.1 member
      refine ⟨here ▸ List.mem_cons_self, fun token among => ?_⟩
      rw [here]
      by_cases isEnd : stream.current.kind = .eof
      · have alone := ends.singleton isEnd
        have stays : stream.synchronize = stream := by rw [synchronize, alone]
        rw [stays, Stream.tokens, alone, List.mem_singleton] at among
        exact .inr ⟨among.symm, among ▸ isEnd⟩
      · -- the token at which the error was found is skipped, and what follows has larger numbers
        have proper : (stream.resize stream.tokens.length).Proper := ⟨ends, Nat.le_refl _⟩
        have shorter := length_synchronize proper isEnd
        obtain ⟨taken, passes⟩ := passes_synchronize stream
        cases taken with
        | nil =>
            rw [synchronize_resize] at shorter
            have same := congrArg List.length passes.tokens
            exact absurd same (Nat.ne_of_gt shorter)
        | cons first taken =>
            have split := passes.tokens
            rw [Stream.tokens, List.cons_append, List.cons.injEq] at split
            rw [Stream.tokens, List.pairwise_cons] at numbered
            exact .inl (numbered.1 token (split.2 ▸ List.mem_append_right taken among))
  | @trans tokens middle rest first second before after ihBefore ihAfter =>
      obtain ⟨taken, split⟩ := before.suffix
      obtain ⟨skipped, splitToo⟩ := after.suffix
      have later := ihAfter ((split ▸ ends).drop before.ne_nil)
        (List.pairwise_append.1 (split ▸ numbered)).2.1
      obtain ⟨orderedFirst, passedFirst⟩ := ihBefore ends numbered
      obtain ⟨orderedSecond, passedSecond⟩ := later
      refine ⟨List.pairwise_append.2 ⟨orderedFirst, orderedSecond, ?_⟩, ?_⟩
      · intro error member other among
        exact (passedFirst error member).2 other.token (passedSecond other among).1
      · intro error member
        rcases List.mem_append.1 member with early | late
        · refine ⟨(passedFirst error early).1, fun token among => ?_⟩
          exact (passedFirst error early).2 token (splitToo ▸ List.mem_append_right skipped among)
        · obtain ⟨inside, passed⟩ := passedSecond error late
          exact ⟨split ▸ List.mem_append_right taken inside, passed⟩

/-! ### Numbered tokens -/

/-- Tokens that have their numbers for their places. -/
def Token.numbered (tokens : List Token) : List Token :=
  tokens.mapIdx fun index token => { token with position := ⟨index, 0⟩ }

/-- Numbers are places again. -/
def Rewording.denumber (tokens : List Token) : Rewording where
  word := Ident.text
  move place := (tokens[place.line]?.map Token.position).getD place

namespace Token

variable {tokens : List Token}

@[simp] theorem length_numbered : (numbered tokens).length = tokens.length := by
  simp [numbered]

theorem getElem?_numbered (index : Nat) :
    (numbered tokens)[index]? =
      tokens[index]?.map fun token => { token with position := ⟨index, 0⟩ } := by
  simp [numbered]

theorem map_denumber : (numbered tokens).map (Token.reword (.denumber tokens)) = tokens := by
  apply List.ext_getElem?
  intro index
  rw [List.getElem?_map, getElem?_numbered]
  cases found : tokens[index]? with
  | none => rfl
  | some token =>
      rcases token with ⟨kind, lexeme, literal, position⟩
      simp [Token.reword, Rewording.denumber, found]

/-- A numbered token stands where its number says. -/
theorem denumber_eq {token : Token} (member : token ∈ numbered tokens) :
    tokens[token.line]? = some (token.reword (.denumber tokens)) := by
  obtain ⟨index, found⟩ := List.getElem?_of_mem member
  have whole := congrArg (·[index]?) (map_denumber : _ = tokens)
  simp only [List.getElem?_map, found, Option.map_some] at whole
  rw [getElem?_numbered] at found
  obtain ⟨original, -, rfl⟩ := Option.map_eq_some_iff.1 found
  exact whole.symm

theorem pairwise_numbered : (numbered tokens).Pairwise (·.line < ·.line) := by
  rw [List.pairwise_iff_getElem]
  intro first second inside insideToo before
  simpa [numbered, Token.line] using before

theorem endsOnce_numbered (ends : EndsOnce tokens) : EndsOnce (numbered tokens) := by
  apply ends.of_kinds
  apply List.ext_getElem?
  intro index
  rw [List.getElem?_map, getElem?_numbered, List.getElem?_map, Option.map_map]
  rfl

/-- The end of the source has the last number. -/
theorem line_of_eof (ends : EndsOnce tokens) {token : Token} (member : token ∈ numbered tokens)
    (isEnd : token.kind = .eof) : token.line + 1 = tokens.length := by
  obtain ⟨taken, rest, split⟩ := List.append_of_mem member
  have alone : rest = [] := by
    have endsToo := endsOnce_numbered ends
    rw [split] at endsToo
    exact (endsToo.drop (List.cons_ne_nil token rest)).singleton isEnd
  subst alone
  have found : (numbered tokens)[taken.length]? = some token := by rw [split]; simp
  rw [getElem?_numbered] at found
  obtain ⟨original, -, rfl⟩ := Option.map_eq_some_iff.1 found
  have length := congrArg List.length split
  rw [length_numbered, List.length_append, List.length_singleton] at length
  exact length.symm

end Token

/-! ### Whole token lists -/

namespace SyntaxError

@[simp] theorem isFatal_reword (change : Rewording) (error : SyntaxError) :
    (error.reword change).isFatal = error.isFatal :=
  rfl

end SyntaxError

/-- The errors that stopped a declaration. -/
def Parse.fatal (parse : Parse) : List SyntaxError :=
  parse.errors.toList.filter SyntaxError.isFatal

namespace Program

variable {tokens : List Token} {limit : ArgumentLimit}

/-- How reading a token list comes out, whatever the bound for loops is. -/
theorem parse_moves (ends : EndsOnce tokens) (comparable : limit ≠ .incomparable) :
    ∃ (program : List (Stmt Unit)) (following : Stream),
      (∀ bound, tokens.length ≤ bound →
        Parser.program (Parser.declaration limit (2 * tokens.length + 4))
          ((Stream.ofTokens tokens).resize bound) = .ok program (following.resize bound)) ∧
      parse limit tokens = { program := .ok program, errors := following.errors } ∧
      (Stream.ofTokens tokens).Moves following ∧ following.current.kind = .eof := by
  obtain ⟨proper, same⟩ := Stream.ofTokens_proper ends
  obtain ⟨found, total⟩ := parse_total ends comparable
  obtain ⟨forward, steady⟩ := Parser.program_advances limit (2 * tokens.length + 4) _ proper
  rw [same] at steady
  unfold parse parseWithin at total ⊢
  cases result : Parser.program (Parser.declaration limit (2 * tokens.length + 4))
      (.ofTokens tokens) with
  | error reason following =>
      rw [result] at total
      cases total
  | ok program following =>
      rw [Parser.lift_ok result] at forward steady
      refine ⟨program, following, fun bound large => ?_, rfl, forward.1,
        Parser.program_atEnd proper result⟩
      have bounded := steady bound large
      simp only [Parser.lift] at bounded
      split at bounded
      next value rest read =>
        obtain ⟨rfl, rfl⟩ := EStateM.Result.ok.inj bounded
        exact read
      next => cases bounded

/-- Tokens are read by their kinds, so numbers can be read in place of their places. -/
theorem fatal_numbered (limit : ArgumentLimit) (ends : EndsOnce tokens) :
    (parse limit tokens).fatal =
      (parse limit (Token.numbered tokens)).fatal.map (SyntaxError.reword (.denumber tokens)) := by
  cases isNumbered : Token.numbered tokens with
  | nil =>
      have empty := congrArg List.length isNumbered
      rw [Token.length_numbered, List.length_nil, List.length_eq_zero_iff] at empty
      rw [empty] at ends
      exact ends.elim
  | cons first rest =>
      have length : tokens.length = (first :: rest).length := by
        rw [← isNumbered, Token.length_numbered]
      have reworded := @parseWithin_reword (.denumber tokens) (2 * tokens.length + 4) limit first rest
      rw [← isNumbered, Token.map_denumber] at reworded
      simp only [Parse.fatal, parse, reworded, isNumbered, ← length, Array.toList_map, List.filter_map]
      rfl

/-- The fatal errors of numbered tokens are found at tokens with increasing numbers, or at the
end. -/
theorem fatal_ordered (ends : EndsOnce tokens) (comparable : limit ≠ .incomparable) :
    let errors := (parse limit (Token.numbered tokens)).fatal
    errors.Pairwise (fun first second => first.token.line < second.token.line ∨
        first.token = second.token ∧ second.token.kind = .eof) ∧
      ∀ error ∈ errors, error.token ∈ Token.numbered tokens := by
  have endsToo := Token.endsOnce_numbered ends
  obtain ⟨-, same⟩ := Stream.ofTokens_proper endsToo
  obtain ⟨program, following, -, read, moves, -⟩ := parse_moves endsToo comparable
  obtain ⟨reported, isReported, reports⟩ := moves.reports
  have began : (Stream.ofTokens (Token.numbered tokens)).errors = #[] := by
    cases Token.numbered tokens <;> rfl
  have errors : (parse limit (Token.numbered tokens)).fatal =
      reported.filter SyntaxError.isFatal := by
    rw [Parse.fatal, read, isReported, began]
    rfl
  rw [same] at reports
  obtain ⟨ordered, inside⟩ := reports.ordered endsToo Token.pairwise_numbered
  rw [errors]
  exact ⟨ordered, fun error member => (inside error member).1⟩

/-- A declaration that begins before the end is read or given up, and takes a token at least; it
fails only if it is nested too deeply for the room there is. -/
theorem declaration_forward (room : Nat) {stream : Stream} (proper : stream.Proper)
    (inside : stream.current.kind ≠ .eof) (comparable : limit ≠ .incomparable) :
    (∃ result taken following, Parser.declaration limit room stream = .ok result following ∧
      taken ≠ [] ∧ stream.tokens = taken ++ following.tokens) ∨
    ((∃ following, Parser.declaration limit room stream = .error .tooDeep following) ∧
      room < 2 * stream.tokens.length + 4) := by
  have forward := (Parser.declaration_advances limit room stream proper inside).forward
  have sound : Parser.Sound limit _ _ _ := Parser.declaration_sound room
  have outcome := sound stream proper
  cases result : Parser.declaration limit room stream with
  | ok value following =>
      rw [Parser.lift_ok result] at forward
      obtain ⟨moves, shorter⟩ := forward
      obtain ⟨taken, passes⟩ := moves.passes
      refine .inl ⟨value, taken, following, rfl, ?_, passes.tokens⟩
      rintro rfl
      have same := congrArg List.length passes.tokens
      have taken : following.tokens.length + 1 ≤ stream.tokens.length := shorter
      rw [List.nil_append] at same
      omega
  | error reason following =>
      rw [Parser.lift, result] at outcome
      cases reason with
      | incomparableLimit => exact absurd outcome.2 comparable
      | tooDeep =>
          have excused : (room : Int) - 3 < 2 * (stream.tokens.length : Int) := outcome.2
          exact .inr ⟨⟨following, rfl⟩, by omega⟩

/-- Whatever room there is for nesting, a token list is read as it is read with room enough, unless
reading is given up because the list is nested too deeply for it. -/
theorem parseWithin_eq_parse (ends : EndsOnce tokens) (room : Nat)
    (shallow : (parseWithin room limit tokens).program ≠ .error .tooDeep) :
    parseWithin room limit tokens = parse limit tokens := by
  rcases Nat.le_total room (2 * tokens.length + 4) with less | more
  · exact (parseWithin_deeper limit tokens less shallow).symm
  · exact parseWithin_deeper limit tokens more (parse_shallow limit ends)

/-- However malformed a token list is: reading it yields a program and stops at the end, also if
there is no bound for loops; taking a token never leads past the end of the list; a declaration that
begins before the end takes a token at least; an error that stops a declaration is found at the
token that is to be looked at; and these errors are found at increasing places, or at the end.

That the host's stack runs out is set aside here: it is a condition of the host and not of the
language (section 6 of the specification), it ends the whole step that reads, and it shows as a
shortage of room.  `parseWithin_eq_parse` says that a shortage changes nothing else. -/
theorem parse_forward (ends : EndsOnce tokens) (most : Int) :
    let limit := ArgumentLimit.count most
    (∃ (program : List (Stmt Unit)) (following : Stream) (taken : List Token),
      parse limit tokens = { program := .ok program, errors := following.errors } ∧
      (∀ bound, tokens.length ≤ bound →
        Parser.program (Parser.declaration limit (2 * tokens.length + 4))
          ((Stream.ofTokens tokens).resize bound) = .ok program (following.resize bound)) ∧
      tokens = taken ++ [following.current] ∧ following.current.kind = .eof) ∧
    (∀ stream : Stream, stream.Proper → stream.current.kind ≠ .eof →
      stream.rest ≠ [] ∧ stream.advance.tokens = stream.rest) ∧
    (∀ (room : Nat) (stream : Stream), stream.Proper → stream.current.kind ≠ .eof →
      (∃ result taken following, Parser.declaration limit room stream = .ok result following ∧
        taken ≠ [] ∧ stream.tokens = taken ++ following.tokens) ∨
      ((∃ following, Parser.declaration limit room stream = .error .tooDeep following) ∧
        room < 2 * stream.tokens.length + 4)) ∧
    (∀ (room : Nat) (stream following : Stream) (error : SyntaxError), stream.Proper →
      Parser.declarationOf limit (Parser.expression limit room) (Parser.statement limit room)
        (Parser.declaration limit room) stream = .error (.syntaxError error) following →
      error.isFatal = true ∧ error.token = following.current) ∧
    ∃ places : List Nat,
      places = (parse limit (Token.numbered tokens)).fatal.map (·.token.line) ∧
      (parse limit tokens).fatal.map (fun error => some error.token) =
        places.map (fun place => tokens[place]?) ∧
      places.Pairwise fun first second =>
        first < second ∨ first = second ∧ second + 1 = tokens.length := by
  intro limit
  have comparable : limit ≠ .incomparable := nofun
  refine ⟨?_, ?_, fun room stream proper inside => declaration_forward room proper inside comparable,
    ?_, _, rfl, ?_, ?_⟩
  · obtain ⟨program, following, bounded, read, moves, atEnd⟩ := parse_moves ends comparable
    obtain ⟨proper, same⟩ := Stream.ofTokens_proper ends
    obtain ⟨taken, passes⟩ := moves.passes
    have alone := (moves.proper proper).ends.singleton atEnd
    refine ⟨program, following, taken, read, bounded, ?_, atEnd⟩
    rw [← same, passes.tokens, Stream.tokens, alone]
  · intro stream proper inside
    have passes := proper.passes_advance inside
    have split : stream.advance.tokens = stream.rest := (List.cons.inj passes.tokens).2.symm
    exact ⟨split ▸ List.cons_ne_nil _ _, split⟩
  · intro room stream following error proper stopped
    obtain ⟨inner, declared⟩ := Parser.statement_and_declaration_advance limit room
    have value : Parser.Stays (Parser.expression limit room) := Parser.expression_advances room
    have forward :=
      (Parser.declarationOf_advances limit value inner declared stream proper).forward
    rw [stopped] at forward
    exact forward.2 error rfl
  · rw [fatal_numbered limit ends, List.map_map, List.map_map]
    apply List.map_congr_left
    intro error member
    exact (Token.denumber_eq ((fatal_ordered ends comparable).2 error member)).symm
  · rw [List.pairwise_map]
    obtain ⟨ordered, inside⟩ := fatal_ordered ends comparable
    apply ordered.imp_of_mem
    intro first second _ member
    rintro (before | ⟨same, isEnd⟩)
    · exact .inl before
    · exact .inr ⟨congrArg Token.line same, Token.line_of_eof ends (inside second member) isEnd⟩

/-- The tokens of `var ; { (`: a name, an operand and a closing brace are missing. -/
def sampleBroken : List Token :=
  [⟨.keyword .var_, "var", none, ⟨1, 1⟩⟩, ⟨.semicolon, ";", none, ⟨1, 5⟩⟩,
    ⟨.leftBrace, "\x7b", none, ⟨1, 7⟩⟩, ⟨.leftParen, "(", none, ⟨1, 9⟩⟩, .eof ⟨1, 9⟩]

/-- The name is missed at the semicolon, and the other two at the end. -/
theorem parse_forward_sampleBroken :
    EndsOnce sampleBroken ∧
      (parse (.count 255) sampleBroken).fatal.map (fun error => some error.token) =
        [1, 4, 4].map (fun place => sampleBroken[place]?) ∧
      ∃ program, (parse (.count 255) sampleBroken).program = .ok program := by
  have ends : EndsOnce sampleBroken := ⟨nofun, nofun, nofun, nofun, rfl⟩
  obtain ⟨⟨program, following, taken, read, -⟩, -, -, -, places, isPlaces, found, -⟩ :=
    parse_forward ends 255
  have numbers : places = [1, 4, 4] := by
    rw [isPlaces]
    with_unfolding_all rfl
  rw [numbers] at found
  exact ⟨ends, found, program, by rw [read]⟩

end Program

end LoxLang
