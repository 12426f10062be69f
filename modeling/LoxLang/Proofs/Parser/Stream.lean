/-
Module: LoxLang.Proofs.Parser.Stream
Purpose: Token lists that end once, and how a stream of tokens moves along them: what has been
  taken is a beginning of what was there, and what has been reported stays reported.
Main exports: EndsOnce, Stream.tokens, Stream.moveTo, Stream.Proper, Stream.Passes
-/
import LoxLang.Program.Parser.Statement

namespace LoxLang

/-! ### Token lists and streams -/

/-- A token list that ends with the end of the source and holds no other end. -/
def EndsOnce : List Token → Prop
  | [] => False
  | [last] => last.kind = .eof
  | token :: following :: rest => token.kind ≠ .eof ∧ EndsOnce (following :: rest)

theorem EndsOnce.drop {taken rest : List Token} (ends : EndsOnce (taken ++ rest))
    (more : rest ≠ []) : EndsOnce rest := by
  induction taken with
  | nil => exact ends
  | cons token taken ih =>
      cases remaining : taken ++ rest with
      | nil => simp_all
      | cons following others =>
          rw [List.cons_append, remaining] at ends
          rw [remaining] at ih
          exact ih ends.2

/-- Whether a token list ends once is a matter of kinds. -/
theorem EndsOnce.of_kinds {tokens others : List Token} (ends : EndsOnce tokens)
    (same : others.map Token.kind = tokens.map Token.kind) : EndsOnce others := by
  induction tokens generalizing others with
  | nil => exact ends.elim
  | cons token rest ih =>
      cases others with
      | nil => cases same
      | cons first more =>
          obtain ⟨sameKind, sameRest⟩ := List.cons.inj same
          cases rest with
          | nil =>
              cases List.map_eq_nil_iff.1 sameRest
              exact sameKind.trans ends
          | cons following others =>
              cases more with
              | nil => cases sameRest
              | cons next others =>
                  have inside : first.kind ≠ .eof := by
                    rw [sameKind]
                    exact ends.1
                  exact ⟨inside, ih ends.2 sameRest⟩

theorem EndsOnce.singleton {current : Token} {rest : List Token}
    (ends : EndsOnce (current :: rest)) (isEnd : current.kind = .eof) : rest = [] := by
  cases rest with
  | nil => rfl
  | cons following others => exact absurd isEnd ends.1

theorem endsOnce_append_eof {body : List Token} {last : Token} (isEnd : last.kind = .eof)
    (others : ∀ token ∈ body, token.kind ≠ .eof) : EndsOnce (body ++ [last]) := by
  induction body with
  | nil => exact isEnd
  | cons token body ih =>
      have tailEnds : EndsOnce (body ++ [last]) :=
        ih fun other member => others other (List.mem_cons_of_mem token member)
      cases remaining : body ++ [last] with
      | nil => simp at remaining
      | cons following rest =>
          rw [List.cons_append, remaining]
          rw [remaining] at tailEnds
          exact ⟨others token (by simp), tailEnds⟩

namespace Stream

/-- The tokens that have not been passed. -/
def tokens (stream : Stream) : List Token :=
  stream.current :: stream.rest

/-- The stream that stands before `next`, with `rest` after it. -/
def moveTo (stream : Stream) (next : Token) (rest : List Token) : Stream :=
  { stream with current := next, rest := rest }

@[simp] theorem tokens_moveTo (stream : Stream) (next : Token) (rest : List Token) :
    (stream.moveTo next rest).tokens = next :: rest := rfl

@[simp] theorem size_moveTo (stream : Stream) (next : Token) (rest : List Token) :
    (stream.moveTo next rest).size = stream.size := rfl

@[simp] theorem current_moveTo (stream : Stream) (next : Token) (rest : List Token) :
    (stream.moveTo next rest).current = next := rfl

@[simp] theorem errors_moveTo (stream : Stream) (next : Token) (rest : List Token) :
    (stream.moveTo next rest).errors = stream.errors := rfl

@[simp] theorem moveTo_moveTo (stream : Stream) (first second : Token)
    (rest others : List Token) :
    (stream.moveTo first rest).moveTo second others = stream.moveTo second others := rfl

@[simp] theorem tokens_report (stream : Stream) (error : SyntaxError) :
    (stream.report error).tokens = stream.tokens := rfl

theorem moveTo_self (stream : Stream) {next : Token} {rest : List Token}
    (same : stream.tokens = next :: rest) : stream.moveTo next rest = stream := by
  rcases stream with ⟨current, following, errors, size⟩
  simp only [tokens, List.cons.injEq] at same
  rcases same with ⟨rfl, rfl⟩
  rfl

/-- A stream over a token list that ends once, no longer than the list it began with. -/
structure Proper (stream : Stream) : Prop where
  ends : EndsOnce stream.tokens
  bounded : stream.tokens.length ≤ stream.size

/-- How a stream can come from another: some tokens have been taken and some errors reported. -/
structure Passes (stream : Stream) (taken : List Token) (following : Stream) : Prop where
  tokens : stream.tokens = taken ++ following.tokens
  errors : stream.errors.toList <+: following.errors.toList
  size : following.size = stream.size

namespace Passes

variable {stream middle following : Stream} {first second taken : List Token}

theorem refl (stream : Stream) : Passes stream [] stream :=
  ⟨rfl, List.prefix_rfl, rfl⟩

theorem trans (left : Passes stream first middle) (right : Passes middle second following) :
    Passes stream (first ++ second) following :=
  ⟨by rw [left.tokens, right.tokens, List.append_assoc],
    left.errors.trans right.errors,
    right.size.trans left.size⟩

theorem proper (passes : Passes stream taken following) (proper : stream.Proper) :
    following.Proper := by
  refine ⟨?_, ?_⟩
  · have ends := proper.ends
    rw [passes.tokens] at ends
    exact ends.drop (by simp [Stream.tokens])
  · have lengths := congrArg List.length passes.tokens
    rw [List.length_append] at lengths
    have bounded := proper.bounded
    rw [passes.size]
    omega

/-- What a stream has not reported, no earlier stream has. -/
theorem clean (passes : Passes stream taken following) (none : following.errors = #[]) :
    stream.errors = #[] := by
  have reported := passes.errors
  rw [none] at reported
  exact Array.toList_eq_nil_iff.1 (List.prefix_nil.1 reported)

theorem length_le (passes : Passes stream taken following) :
    following.tokens.length ≤ stream.tokens.length := by
  rw [passes.tokens, List.length_append]
  exact Nat.le_add_left _ _

theorem length_lt (passes : Passes stream taken following) (some : taken ≠ []) :
    following.tokens.length < stream.tokens.length := by
  rw [passes.tokens, List.length_append]
  have := List.length_pos_iff.2 some
  omega

theorem report (stream : Stream) (error : SyntaxError) :
    Passes stream [] (stream.report error) :=
  ⟨rfl, by simp [Stream.report], rfl⟩

end Passes

/-- Taking a token that is not the end moves to the next one. -/
theorem advance_eq {stream : Stream} {next : Token} {rest : List Token}
    (following : stream.rest = next :: rest) (inside : stream.current.kind ≠ .eof) :
    stream.advance = stream.moveTo next rest := by
  simp [advance, following, atEnd, inside, moveTo]

theorem advance_of_tokens {stream : Stream} {token next : Token} {rest : List Token}
    (split : stream.tokens = token :: next :: rest) (inside : token.kind ≠ .eof) :
    stream.current = token ∧ stream.advance = stream.moveTo next rest := by
  simp only [tokens, List.cons.injEq] at split
  exact ⟨split.1, advance_eq split.2 (split.1 ▸ inside)⟩

theorem current_of_split {stream : Stream} {taken rest : List Token}
    (split : stream.tokens = taken ++ rest) (nonempty : taken ≠ []) :
    taken = stream.current :: taken.tail := by
  cases taken with
  | nil => exact absurd rfl nonempty
  | cons first others =>
      simp only [tokens, List.cons_append, List.cons.injEq] at split
      rw [split.1, List.tail_cons]

theorem Proper.passes_advance {stream : Stream} (proper : stream.Proper)
    (inside : stream.current.kind ≠ .eof) :
    Passes stream [stream.current] stream.advance := by
  have ends := proper.ends
  cases following : stream.rest with
  | nil =>
      rw [Stream.tokens, following] at ends
      exact absurd ends inside
  | cons next rest =>
      rw [advance_eq following inside]
      exact ⟨by simp [Stream.tokens, following, moveTo], List.prefix_rfl, rfl⟩

theorem skipToBoundary_suffix (previous current : Token) (rest : List Token) :
    ∃ taken, current :: rest =
      taken ++ (skipToBoundary previous current rest).1 ::
        (skipToBoundary previous current rest).2 := by
  induction rest generalizing previous current with
  | nil => exact ⟨[], rfl⟩
  | cons following rest ih =>
      unfold skipToBoundary
      split
      · exact ⟨[], rfl⟩
      · obtain ⟨taken, split⟩ := ih current following
        exact ⟨current :: taken, by rw [List.cons_append, ← split]⟩

theorem passes_synchronize (stream : Stream) :
    ∃ taken, Passes stream taken stream.synchronize := by
  unfold synchronize
  split
  · exact ⟨[], Passes.refl stream⟩
  · rename_i following rest isRest
    split
    · exact ⟨[], Passes.refl stream⟩
    · obtain ⟨taken, split⟩ := skipToBoundary_suffix stream.current following rest
      refine ⟨stream.current :: taken, ?_, List.prefix_rfl, rfl⟩
      rw [Stream.tokens, isRest, List.cons_append, split]
      rfl

end Stream

end LoxLang
