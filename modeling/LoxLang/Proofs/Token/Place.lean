/-
Module: LoxLang.Proofs.Token.Place
Purpose: Where tokens stand.  Characters are read at the places where the text, its line ends
  written as newlines, has them; a token stands at the first of its characters, and no two tokens
  stand at one place.
Main exports: Splits.token_place, Splits.tokens_ordered, Splits.positions_nodup,
  scan_picked_nodup, reading_exact
-/
import LoxLang.Proofs.Source.Lookahead
import LoxLang.Proofs.Token.Scanning

namespace LoxLang

/-! ### The place of a token -/

namespace Splits

variable {position : Position} {segments : List Segment} {after : List Char}

/-- A token stands at the first of its characters. -/
theorem token_place {found : Token} {rest : List Char}
    (fits : (Segment.token found).Fits position rest) :
    ∃ c tail, found.lexeme.toList = c :: tail ∧ found.position = position.after c := by
  obtain ⟨longest, isWord, -⟩ := fits
  obtain ⟨c, tail, isText⟩ := List.exists_cons_of_ne_nil longest.1.ne_nil
  have inLine : c ≠ '\n' := by
    rintro rfl
    rw [isText] at longest
    exact absurd longest.1.not_blank (by decide)
  refine ⟨c, tail, isText, ?_⟩
  rw [Position.after_of_ne inLine, isWord]
  rfl

/-- Tokens stand behind the place where their text begins. -/
theorem token_before (splits : Splits position segments after) {token : Token}
    (member : token ∈ segments.filterMap Segment.token?) : position.Before token.position := by
  induction segments generalizing position with
  | nil => cases member
  | cons segment rest ih =>
      have onwards := position.before_past splits.1.text_ne_nil
      cases segment with
      | token found =>
          cases List.mem_cons.1 member with
          | inl isFound =>
              obtain ⟨c, tail, -, isPlace⟩ := token_place splits.1
              rw [isFound, isPlace]
              exact position.before_after c
          | inr later => exact onwards.trans (ih splits.2 later)
      | _ => exact onwards.trans (ih splits.2 member)

/-- Tokens stand one behind the other. -/
theorem tokens_ordered (splits : Splits position segments after) :
    (segments.filterMap Segment.token?).Pairwise fun token other =>
      token.position.Before other.position := by
  induction segments generalizing position with
  | nil => exact .nil
  | cons segment rest ih =>
      cases segment with
      | token found =>
          refine List.pairwise_cons.2 ⟨?_, ih splits.2⟩
          intro later member
          obtain ⟨c, tail, isText, isPlace⟩ := token_place splits.1
          have behind := splits.2.token_before member
          simp only [Segment.text, isText, Position.past_cons] at behind
          rw [isPlace]
          cases tail with
          | nil => exact behind
          | cons d others =>
              exact ((position.after c).before_past (List.cons_ne_nil d others)).trans behind
      | _ => exact ih splits.2

end Splits

/-- No two tokens stand at one place. -/
theorem Splits.positions_nodup {position : Position} {segments : List Segment} {after : List Char}
    (splits : Splits position segments after) :
    ((segments.filterMap Segment.token?).map Token.position).Nodup := by
  refine List.pairwise_map.2 (splits.tokens_ordered.imp ?_)
  intro token other before same
  exact other.position.before_irrefl (same ▸ before)

theorem picked_places {α : Type} {pick : Token → Option α} {place : α → Position}
    (stands : ∀ token found, pick token = some found → place found = token.position)
    (tokens : List Token) :
    ((tokens.filterMap pick).map place).Sublist (tokens.map Token.position) := by
  induction tokens with
  | nil => exact .slnil
  | cons token rest ih =>
      cases picked : pick token with
      | none =>
          rw [List.filterMap_cons_none picked]
          exact ih.cons _
      | some found =>
          rw [List.filterMap_cons_some picked, List.map_cons, stands token found picked]
          exact ih.cons_cons _

/-- Whatever is picked from the tokens of a text but their end, no two of the things picked stand
at one place if each stands where its token does. -/
theorem scan_picked_nodup {α : Type} {pick : Token → Option α} {place : α → Position}
    (stands : ∀ token found, pick token = some found → place found = token.position)
    (endless : ∀ position, pick (.eof position) = none) (source : String) :
    (((scan source).tokens.filterMap pick).map place).Nodup := by
  obtain ⟨segments, -, splits, isTokens, -⟩ := scan_segments source
  rw [isTokens, List.filterMap_append, List.filterMap_cons_none (endless _), List.filterMap_nil,
    List.append_nil]
  exact splits.positions_nodup.sublist (picked_places stands _)

/-- A token stands where its first character is read. -/
theorem Splits.token_stands {segments : List Segment} (splits : Splits .start segments [])
    {token : Token} (member : token ∈ segments.filterMap Segment.token?) :
    ∃ before c others after, token.lexeme.toList = c :: others ∧
      segments.flatMap Segment.text = before ++ c :: others ++ after ∧
      token.position = .atEnd (before ++ [c]) := by
  obtain ⟨earlier, later, rfl, fits⟩ := splits.token_fits member
  obtain ⟨c, others, isText, isPlace⟩ := token_place fits
  refine ⟨earlier.flatMap Segment.text, c, others, later.flatMap Segment.text, isText, ?_, ?_⟩
  · simp [Segment.text, isText]
  · rw [isPlace, ← Position.past_start, Position.past_append]
    rfl

/-! ### Line ends -/

/-- A text and the same text with its line ends written as newlines are scanned alike. -/
theorem scan_normalize (source : String) :
    scan (.ofList (normalize source.toList)) = scan source := by
  have sameText : normalize (String.ofList (normalize source.toList)).toList =
      normalize source.toList := by
    rw [String.toList_ofList, normalize_eq_self (return_notMem_normalize _)]
  obtain ⟨segments, isText, splits, isTokens, isErrors⟩ := scan_segments source
  obtain ⟨areTokens, areErrors⟩ := scan_of_splits (sameText.trans isText) splits
  rw [sameText] at areTokens
  have sameTokens := areTokens.trans isTokens.symm
  have sameErrors := Array.toList_inj.1 (areErrors.trans isErrors.symm)
  exact (Scan.mk.injEq ..).mpr ⟨sameTokens, sameErrors⟩

/-! ### Reading in place -/

/-- After any calls, what is read next and where depends on how many characters have been read. -/
theorem Reader.get_exact (source : String) (calls : List Call) :
    ((ofString source).after calls).position =
        .atEnd ((normalize source.toList).take (calls.count .get)) ∧
      ((ofString source).after calls).get.1 =
        (normalize source.toList)[calls.count .get]? ∧
      ((ofString source).after calls).get.2.position =
        .atEnd ((normalize source.toList).take (calls.count .get + 1)) := by
  have placed : ∀ calls : List Call, ((ofString source).after calls).position =
      .atEnd ((normalize source.toList).take (calls.count .get)) := by
    intro calls
    have reads := (after_reads calls (ofString source)).position
    rw [cursor_ofString] at reads
    exact reads.trans (Position.past_start _)
  have oneMore : ((ofString source).after calls).get.2 =
      (ofString source).after (calls ++ [.get]) := by
    simp [after, answer]
  refine ⟨placed calls, get_after calls (ofString source), ?_⟩
  rw [oneMore, placed, List.count_append]
  rfl

/-- Whatever is looked at ahead, the characters of the text are read in their order, its line ends
as newlines, each at the place that the characters up to it lead to.  So a text is scanned as it
is with newlines for its line ends, and its tokens stand at their first characters, one behind
the other. -/
theorem reading_exact (source : String) :
    let text := normalize source.toList
    (∀ calls : List Reader.Call,
      let reader := (Reader.ofString source).after calls
      let count := calls.count .get
      reader.position = .atEnd (text.take count) ∧
        reader.get.1 = text[count]? ∧
        reader.get.2.position = .atEnd (text.take (count + 1))) ∧
    scan (.ofList text) = scan source ∧
    ∃ body : List Token, (scan source).tokens = body ++ [.eof (.atEnd text)] ∧
      (∀ token ∈ body, token.kind ≠ .eof ∧
        ∃ before c others after, token.lexeme.toList = c :: others ∧
          text = before ++ c :: others ++ after ∧ token.position = .atEnd (before ++ [c])) ∧
      body.Pairwise fun token other => token.position.Before other.position := by
  obtain ⟨segments, isText, splits, isTokens, -⟩ := scan_segments source
  rw [Position.past_start] at isTokens
  refine ⟨Reader.get_exact source, scan_normalize source, _, isTokens, ?_, splits.tokens_ordered⟩
  intro token member
  refine ⟨(splits.lexeme member).kind_ne_eof, ?_⟩
  rw [isText]
  exact splits.token_stands member

end LoxLang
