/-
Module: LoxLang.Proofs.Parser.Elements
Purpose: Lists of elements separated by commas, of which there may only be so many, and lists of
  items that follow each other up to a token that ends them.
Main exports: ArgumentLimit.Allows, Separated, Parser.elements_sound, Parser.elements_complete,
  Parsing.Many, Parsing.loop_manyStep
-/
import LoxLang.Proofs.Parser.Parsing

namespace LoxLang

open LoxLang.Stream (Passes)

/-- Whether a list may have `count` elements: each of them was read while there was room. -/
def ArgumentLimit.Allows (limit : ArgumentLimit) (count : Nat) : Prop :=
  ∀ size < count, limit.reached? size = some false

instance (limit : ArgumentLimit) (count : Nat) : Decidable (limit.Allows count) :=
  inferInstanceAs (Decidable (∀ size < count, limit.reached? size = some false))

/-- Elements of any sort separated by commas. -/
inductive Separated {α : Type} (element : α → List Token → Prop) :
    List α → List Token → Prop where
  | none : Separated element [] []
  | one {a : α} {ts : List Token} (spelled : element a ts) : Separated element [a] ts
  | more {a following : α} {rest : List α} {comma : Token} {ts us : List Token}
      (spelled : element a ts) (isComma : comma.kind = .comma)
      (others : Separated element (following :: rest) us) :
      Separated element (a :: following :: rest) (ts ++ comma :: us)

theorem Separated.bounded {α : Type} {item : α → List Token → Prop} {list : List α}
    {ts : List Token} {size : Nat} (separated : Separated item list ts) (short : ts.length ≤ size) :
    Separated (fun value us => item value us ∧ us.length ≤ size) list ts := by
  induction separated with
  | none => exact .none
  | one spelled => exact .one ⟨spelled, short⟩
  | more spelled isComma others ih =>
      simp only [List.length_append, List.length_cons] at short
      exact .more ⟨spelled, by omega⟩ isComma (ih (by omega))

namespace Parsing

variable {α : Type}

/-- Room for another element after `size` of them. -/
def limited (limit : ArgumentLimit) (size : Nat) : Parsing Unit := fun _ taken _ =>
  taken = [] ∧ limit.reached? size = some false

/-- One element and the comma after it, if there is one. -/
def elementStep (limit : ArgumentLimit) (element : Parsing α) (seen : Array α) :
    Parsing (Bool × Array α) :=
  (limited limit seen.size).andThen fun _ =>
    element.andThen fun value =>
      (accepted .comma).andThen fun more => pure (more, seen.push value)

/-- Elements up to a closing parenthesis. -/
def elements (limit : ArgumentLimit) (element : Parsing α) : Parsing (List α) :=
  (seen .rightParen).andThen fun closes =>
    if closes then pure []
    else (Loop (elementStep limit element) #[]).andThen fun all => pure all.toList

variable {limit : ArgumentLimit} {element : Parsing α}

theorem elementStep_iff {seen : Array α} {result : Bool × Array α} {taken : List Token}
    {next : Kind} :
    elementStep limit element seen result taken next ↔
      limit.reached? seen.size = some false ∧ ∃ value before after, taken = before ++ after ∧
        element value before (firstKind after next) ∧
        accepted .comma result.1 after next ∧ result.2 = seen.push value := by
  constructor
  · rintro ⟨_, none, rest, rfl, ⟨rfl, room⟩, value, before, others, rfl, reads, more, after, nothing,
      rfl, comma, rfl, rfl⟩
    exact ⟨room, value, before, after, by simp, by simpa using reads, comma, rfl⟩
  · rintro ⟨room, value, before, after, rfl, reads, comma, same⟩
    refine ⟨(), [], before ++ after, rfl, ⟨rfl, room⟩, value, before, after, rfl, reads,
      result.1, after, [], by simp, by simpa using comma, ?_, rfl⟩
    rw [← same]

theorem elementStep_progressing
    (nonempty : ∀ value taken next, element value taken next → taken ≠ []) :
    Progressing (elementStep limit element) := by
  intro state following taken next step
  obtain ⟨-, value, before, after, rfl, reads, -, -⟩ := elementStep_iff.1 step
  have := nonempty _ _ _ reads
  simp_all

/-- The loop adds the elements it reads to those seen before, and there is room for each. -/
theorem Loop.separated {item : α → List Token → Prop}
    (weaken : ∀ value taken next, element value taken next → item value taken)
    {seen final : Array α} {taken : List Token} {next : Kind}
    (loop : Loop (elementStep limit element) seen final taken next) :
    ∃ first rest, final.toList = seen.toList ++ first :: rest ∧
      Separated item (first :: rest) taken ∧
      ∀ size, seen.size ≤ size → size < final.size → limit.reached? size = some false := by
  induction loop with
  | stop last =>
      obtain ⟨room, value, before, after, rfl, reads, comma, isFinal⟩ := elementStep_iff.1 last
      rcases comma with ⟨impossible, -⟩ | ⟨-, rfl, -⟩
      · cases impossible
      · simp only at isFinal
        subst isFinal
        refine ⟨value, [], by simp, by simpa using Separated.one (weaken _ _ _ reads), ?_⟩
        intro size low high
        rw [Array.size_push] at high
        obtain rfl : size = _ := Nat.le_antisymm (Nat.le_of_lt_succ high) low
        exact room
  | again step _ ih =>
      obtain ⟨room, value, before, after, rfl, reads, comma, isMiddle⟩ := elementStep_iff.1 step
      rcases comma with ⟨-, token, isComma, rfl⟩ | ⟨impossible, -⟩
      · simp only at isMiddle
        subst isMiddle
        rcases ih with ⟨first, rest, isFinal, separated, rooms⟩
        refine ⟨value, first :: rest, by simpa using isFinal, ?_, ?_⟩
        · simpa using Separated.more (weaken _ _ _ reads) isComma separated
        · intro size low high
          rcases Nat.eq_or_lt_of_le low with rfl | more
          · exact room
          · exact rooms size (by rw [Array.size_push]; exact more) high
      · cases impossible

theorem elements_separated {item : α → List Token → Prop}
    (weaken : ∀ value taken next, element value taken next → item value taken)
    {list : List α} {taken : List Token} {next : Kind}
    (reads : elements limit element list taken next) :
    Separated item list taken ∧ limit.Allows list.length := by
  rcases reads with ⟨closes, none, rest, rfl, ⟨-, rfl⟩, reads⟩
  cases closes with
  | true =>
      rcases reads with ⟨rfl, rfl⟩
      exact ⟨.none, fun size low => absurd low (Nat.not_lt_zero size)⟩
  | false =>
      rcases reads with ⟨all, before, nothing, rfl, loop, rfl, rfl⟩
      obtain ⟨first, others, isAll, separated, rooms⟩ := loop.separated weaken
      simp only [List.nil_append] at isAll
      rw [isAll]
      refine ⟨by simpa using separated, fun size low => rooms size (Nat.zero_le size) ?_⟩
      rwa [← Array.length_toList, isAll]

/-- Elements that are not empty and do not start like their end are read up to it. -/
theorem Separated.loop {item : α → List Token → Prop}
    (strengthen : ∀ value taken, item value taken →
      element value taken .comma ∧ element value taken .rightParen)
    {list : List α} {taken : List Token} (separated : Separated item list taken)
    (nonempty : list ≠ []) (seen : Array α)
    (rooms : ∀ size, seen.size ≤ size → size < seen.size + list.length →
      limit.reached? size = some false) :
    Loop (elementStep limit element) seen (seen ++ list.toArray) taken .rightParen := by
  induction separated generalizing seen with
  | none => exact absurd rfl nonempty
  | @one value taken spelled =>
      refine .stop (elementStep_iff.2 ⟨rooms _ (Nat.le_refl _) (by simp), value, taken, [], ?_⟩)
      exact ⟨by simp, (strengthen _ _ spelled).2, Or.inr ⟨rfl, rfl, by decide⟩, by simp⟩
  | @more value following rest comma before after spelled isComma others ih =>
      have step : elementStep limit element seen (true, seen.push value) (before ++ [comma])
          (firstKind after .rightParen) := by
        refine elementStep_iff.2 ⟨rooms _ (Nat.le_refl _) (by simp), value, before, [comma], ?_⟩
        refine ⟨rfl, ?_, Or.inl ⟨rfl, comma, isComma, rfl⟩, rfl⟩
        simpa [isComma] using (strengthen _ _ spelled).1
      have loop := ih (by simp) (seen.push value) (by
        intro size low high
        simp only [Array.size_push, List.length_cons] at low high
        exact rooms size (by omega) (by simp only [List.length_cons]; omega))
      have whole := Loop.again step loop
      simpa using whole

theorem Separated.elements {item : α → List Token → Prop}
    (strengthen : ∀ value taken, item value taken →
      element value taken .comma ∧ element value taken .rightParen)
    (starts : ∀ value taken, item value taken → ∃ first rest, taken = first :: rest ∧
      first.kind ≠ .rightParen)
    {list : List α} {taken : List Token} (separated : Separated item list taken)
    (allowed : limit.Allows list.length) :
    Parsing.elements limit element list taken .rightParen := by
  by_cases empty : list = []
  · subst empty
    cases separated
    exact ⟨true, [], [], rfl, ⟨rfl, rfl⟩, rfl, rfl⟩
  · have opens : firstKind taken .rightParen ≠ .rightParen := by
      cases separated with
      | none => exact absurd rfl empty
      | one spelled =>
          obtain ⟨first, rest, rfl, differs⟩ := starts _ _ spelled
          exact differs
      | more spelled _ _ =>
          obtain ⟨first, rest, rfl, differs⟩ := starts _ _ spelled
          exact differs
    have loop := Separated.loop strengthen separated empty #[]
      (fun size _ high => allowed size (by simpa using high))
    refine ⟨false, [], taken, rfl, ⟨by simp [opens], rfl⟩, list.toArray, taken, [], by simp, ?_, ?_⟩
    · simpa using loop
    · exact ⟨rfl, rfl⟩

end Parsing

namespace Parser

variable {α : Type} {limit : ArgumentLimit} {need : Int} {element : Parser α}
  {reading : Parsing α}

theorem checkLimit_sound (what : ListRole) (size : Nat) :
    Sound limit need (checkLimit limit what size) (Parsing.limited limit size) := by
  intro stream proper
  unfold checkLimit
  cases reached : limit.reached? size with
  | none =>
      refine ⟨⟨[], Passes.refl stream⟩, ?_⟩
      cases limit <;> simp_all [ArgumentLimit.reached?, Excused]
  | some full =>
      cases full with
      | false => exact ⟨[], Passes.refl stream, fun _ => ⟨rfl, reached⟩⟩
      | true =>
          have reported : Sound limit need (report (.tooMany limit what) stream.current)
            (Parsing.limited limit size) := Sound.report _ _ _
          exact reported stream proper

theorem checkLimit_complete (what : ListRole) (size : Nat) :
    Complete (checkLimit limit what size) (Parsing.limited limit size) := by
  rintro stream value taken next rest split _ ⟨rfl, room⟩
  simp only [checkLimit, room, stream.moveTo_self split]

theorem elements_sound (what : ListRole) (sound : Sound limit need element reading)
    (nonempty : ∀ value taken next, reading value taken next → taken ≠ []) :
    Sound limit need (elements limit what element) (Parsing.elements limit reading) := by
  refine (Sound.check _).bind fun closes => ?_
  cases closes with
  | true => exact Sound.pure _
  | false =>
      refine (Sound.repeating (fun seen => ?_) (Parsing.elementStep_progressing nonempty) #[]).bind
        fun all => Sound.pure _
      exact (checkLimit_sound what _).bind fun _ => sound.bind fun value =>
        (Sound.accept (by decide)).bind fun more => Sound.pure _

theorem elements_complete (what : ListRole) (complete : Complete element reading)
    (nonempty : ∀ value taken next, reading value taken next → taken ≠ []) :
    Complete (elements limit what element) (Parsing.elements limit reading) := by
  refine (Complete.check _).bind fun closes => ?_
  cases closes with
  | true => exact Complete.pure _
  | false =>
      refine (Complete.repeating (fun seen => ?_)
        (Parsing.elementStep_progressing nonempty) #[]).bind fun all => Complete.pure _
      exact (checkLimit_complete what _).bind fun _ => complete.bind fun value =>
        (Complete.accept (by decide)).bind fun more => Complete.pure _

end Parser

/-! ### Items one after the other -/

namespace Parsing

variable {α : Type}

/-- Items one after the other. -/
inductive Many (item : Parsing α) : Parsing (List α) where
  | nil {next : Kind} : Many item [] [] next
  | cons {first : α} {rest : List α} {ts us : List Token} {next : Kind}
      (reads : item first ts (firstKind us next)) (others : Many item rest us next) :
      Many item (first :: rest) (ts ++ us) next

/-- One turn of a loop that reads items up to a token that `ends` them. -/
def manyStep (ends : Kind → Bool) (item : Parsing α) (seen : Array α) :
    Parsing (Bool × Array α) := fun result taken next =>
  (result = (false, seen) ∧ taken = [] ∧ ends next = true) ∨
    ∃ value, ends (firstKind taken next) = false ∧ item value taken next ∧
      result = (true, seen.push value)

/-- An item that is not mistaken for the end of the items. -/
def unended (ends : Kind → Bool) (item : Parsing α) : Parsing α := fun value taken next =>
  ends (firstKind taken next) = false ∧ item value taken next

variable {ends : Kind → Bool} {item : Parsing α}

theorem manyStep_progressing (ends : Kind → Bool)
    (nonempty : ∀ value taken next, item value taken next → taken ≠ []) :
    Progressing (manyStep ends item) := by
  rintro state following taken next (⟨same, -, -⟩ | ⟨value, -, reads, -⟩)
  · cases same
  · exact nonempty _ _ _ reads

theorem loop_manyStep {seen final : Array α} {taken : List Token} {next : Kind} :
    Loop (manyStep ends item) seen final taken next ↔
      ∃ list, final = seen ++ list.toArray ∧ Many (unended ends item) list taken next ∧
        ends next = true := by
  constructor
  · intro loop
    induction loop with
    | stop last =>
        rcases last with ⟨same, rfl, isEnd⟩ | ⟨_, _, _, same⟩
        · cases same
          exact ⟨[], by simp, .nil, isEnd⟩
        · cases same
    | again step _ ih =>
        rcases ih with ⟨list, rfl, many, isEnd⟩
        rcases step with ⟨same, -, -⟩ | ⟨value, goesOn, reads, same⟩
        · cases same
        · cases same
          refine ⟨value :: list, by simp, .cons ⟨?_, reads⟩ many, isEnd⟩
          exact goesOn
  · rintro ⟨list, rfl, many, isEnd⟩
    induction many generalizing seen with
    | nil => exact .stop (Or.inl ⟨by simp, rfl, isEnd⟩)
    | @cons first rest ts us next reads others ih =>
        have loop := @ih (seen.push first) isEnd
        have step : manyStep ends item seen (true, seen.push first) ts (firstKind us next) :=
          Or.inr ⟨first, reads.1, reads.2, rfl⟩
        simpa using Loop.again step loop

/-- Items up to a token that `ends` them, which is left in place. -/
def items (ends : Kind → Bool) (item : Parsing α) : Parsing (List α) :=
  (Loop (manyStep ends item) #[]).andThen fun all => pure all.toList

theorem items_iff {list : List α} {taken : List Token} {next : Kind} :
    items ends item list taken next ↔
      Many (unended ends item) list taken next ∧ ends next = true := by
  rw [items, andThen_pure]
  simp only [loop_manyStep]
  constructor
  · rintro ⟨all, ⟨list, rfl, many, isEnd⟩, rfl⟩
    exact ⟨by simpa using many, isEnd⟩
  · rintro ⟨many, isEnd⟩
    exact ⟨list.toArray, ⟨list, by simp, many, isEnd⟩, by simp⟩

theorem Many.mono {other : Parsing α} {list : List α} {taken : List Token} {next : Kind}
    (many : Many item list taken next)
    (weaker : ∀ value taken next, item value taken next → other value taken next) :
    Many other list taken next := by
  induction many with
  | nil => exact .nil
  | cons reads _ ih => exact .cons (weaker _ _ _ reads) ih

end Parsing

end LoxLang
